import Ini.Text.Basic

/-!
# Tables

A table is a list of keys with their values, in the order in which the keys
first arrived. Storing under a key that is already there changes the value and
leaves the key in its place; a new key goes to the end; taking a key out moves
no other. The order is part of what a reader of a configuration sees, so two
tables are equal only if they agree in it.

That no key stands twice is not built into the type: every operation here keeps
it (`Distinct`), and a table built from them has it.
-/

namespace Ini

/-- Keys with their values, in order of arrival. -/
abbrev Table (α β : Type) := List (α × β)

namespace Table

variable {α β : Type}

/-- The keys in order. -/
def keys (table : Table α β) : List α := table.map Prod.fst

/-- No key stands twice. -/
def Distinct (table : Table α β) : Prop := table.keys.Nodup

variable [DecidableEq α]

instance {table : Table α β} : Decidable table.Distinct := inferInstanceAs (Decidable (List.Nodup _))

/-- The value under a key. -/
def find? (table : Table α β) (key : α) : Option β :=
  match table with
  | [] => none
  | (k, value) :: rest => if k = key then some value else find? rest key

/-- Whether a key is there. -/
def contains (table : Table α β) (key : α) : Bool := (table.find? key).isSome

/-- Stores a value: in place under a key that is there, else at the end. -/
def put (table : Table α β) (key : α) (value : β) : Table α β :=
  match table with
  | [] => [(key, value)]
  | (k, old) :: rest => if k = key then (k, value) :: rest else (k, old) :: put rest key value

/-- Applies a function to the value under a key, if the key is there. -/
def adjust (table : Table α β) (key : α) (f : β → β) : Table α β :=
  match table with
  | [] => []
  | (k, value) :: rest => if k = key then (k, f value) :: rest else (k, value) :: adjust rest key f

/-- Takes a key out. -/
def erase (table : Table α β) (key : α) : Table α β :=
  match table with
  | [] => []
  | (k, value) :: rest => if k = key then rest else (k, value) :: erase rest key

theorem find?_put (table : Table α β) (key other : α) (value : β) :
    (table.put key value).find? other = if key = other then some value else table.find? other := by
  induction table with
  | nil => rfl
  | cons pair rest ih =>
      obtain ⟨k, old⟩ := pair
      by_cases hk : k = key
      · subst hk
        by_cases ho : k = other <;> simp [put, find?, ho]
      · by_cases ho : k = other
        · subst ho
          simp [put, find?, hk, Ne.symm hk]
        · simp [put, find?, hk, ho, ih]

theorem find?_adjust (table : Table α β) (key other : α) (f : β → β) :
    (table.adjust key f).find? other =
      if key = other then (table.find? other).map f else table.find? other := by
  induction table with
  | nil => simp [adjust, find?]
  | cons pair rest ih =>
      obtain ⟨k, old⟩ := pair
      by_cases hk : k = key
      · subst hk
        by_cases ho : k = other <;> simp [adjust, find?, ho]
      · by_cases ho : k = other
        · subst ho
          simp [adjust, find?, hk, Ne.symm hk]
        · simp [adjust, find?, hk, ho, ih]

theorem mem_of_find?_eq_some {table : Table α β} {key : α} {value : β}
    (h : table.find? key = some value) : (key, value) ∈ table := by
  induction table with
  | nil => cases h
  | cons pair rest ih =>
      obtain ⟨k, old⟩ := pair
      rw [find?] at h
      split at h
      · next hk =>
          cases h
          simp [hk]
      · exact List.mem_cons_of_mem _ (ih h)

theorem find?_eq_some_of_mem {table : Table α β} {key : α} {value : β} (h : table.Distinct)
    (hmem : (key, value) ∈ table) : table.find? key = some value := by
  induction table with
  | nil => cases hmem
  | cons pair rest ih =>
      obtain ⟨k, old⟩ := pair
      obtain ⟨hk, hrest⟩ := List.nodup_cons.1 h
      rw [find?]
      rcases List.mem_cons.1 hmem with heq | hmem
      · cases heq
        rw [if_pos rfl]
      · have hne : k ≠ key := by
          rintro rfl
          exact hk (List.mem_map.2 ⟨_, hmem, rfl⟩)
        rw [if_neg hne, ih hrest hmem]

theorem contains_iff_mem_keys {table : Table α β} {key : α} :
    table.contains key = true ↔ key ∈ table.keys := by
  induction table with
  | nil => simp [contains, find?, keys]
  | cons pair rest ih =>
      obtain ⟨k, value⟩ := pair
      by_cases hk : k = key
      · subst hk
        simp [contains, find?, keys]
      · simpa [contains, find?, keys, hk, Ne.symm hk] using ih

theorem keys_put (table : Table α β) (key : α) (value : β) :
    (table.put key value).keys = if key ∈ table.keys then table.keys else table.keys ++ [key] := by
  induction table with
  | nil => simp [put, keys]
  | cons pair rest ih =>
      obtain ⟨k, old⟩ := pair
      by_cases hk : k = key
      · subst hk
        simp [put, keys]
      · have hmem : key ∈ keys ((k, old) :: rest) ↔ key ∈ keys rest := by
          simp [keys, Ne.symm hk]
        rw [put, if_neg hk]
        by_cases hm : key ∈ keys rest
        · rw [if_pos hm] at ih
          rw [if_pos (hmem.2 hm)]
          exact congrArg (k :: ·) ih
        · rw [if_neg hm] at ih
          rw [if_neg (mt hmem.1 hm)]
          exact congrArg (k :: ·) ih

@[simp] theorem keys_adjust (table : Table α β) (key : α) (f : β → β) :
    (table.adjust key f).keys = table.keys := by
  induction table with
  | nil => rfl
  | cons pair rest ih =>
      obtain ⟨k, value⟩ := pair
      by_cases hk : k = key
      · simp [adjust, keys, hk]
      · simpa [adjust, keys, hk] using ih

theorem keys_erase (table : Table α β) (key : α) : (table.erase key).keys = table.keys.erase key := by
  induction table with
  | nil => rfl
  | cons pair rest ih =>
      obtain ⟨k, value⟩ := pair
      by_cases hk : k = key
      · simp [erase, keys, hk]
      · simpa [erase, keys, hk, List.erase_cons] using ih

theorem erase_sublist (table : Table α β) (key : α) : (table.erase key).Sublist table := by
  induction table with
  | nil => exact .slnil
  | cons pair rest ih =>
      obtain ⟨k, value⟩ := pair
      rw [erase]
      split
      · exact List.sublist_cons_self _ rest
      · exact ih.cons_cons _

theorem contains_eq_false_iff {table : Table α β} {key : α} :
    table.contains key = false ↔ key ∉ table.keys := by
  rw [← contains_iff_mem_keys, Bool.not_eq_true]

theorem find?_eq_none_iff {table : Table α β} {key : α} :
    table.find? key = none ↔ key ∉ table.keys := by
  rw [← contains_eq_false_iff, contains, Option.isSome_eq_false_iff, Option.isNone_iff_eq_none]

theorem put_of_not_mem {table : Table α β} {key : α} (h : key ∉ table.keys) (value : β) :
    table.put key value = table ++ [(key, value)] := by
  induction table with
  | nil => rfl
  | cons pair rest ih =>
      obtain ⟨k, old⟩ := pair
      have hk : k ≠ key := fun e => h (by simp [keys, e])
      have hrest : key ∉ keys rest := fun hm => h (List.mem_cons_of_mem _ hm)
      rw [put, if_neg hk, ih hrest]
      rfl

theorem put_ne_nil (table : Table α β) (key : α) (value : β) : table.put key value ≠ [] := by
  unfold put
  split
  · simp
  · split <;> simp

theorem mem_put {table : Table α β} {key : α} {value : β} {pair : α × β}
    (h : pair ∈ table.put key value) : pair = (key, value) ∨ pair ∈ table := by
  induction table with
  | nil => exact .inl (List.mem_singleton.1 h)
  | cons first rest ih =>
      obtain ⟨k, old⟩ := first
      rw [put] at h
      split at h
      · next hk =>
          rcases List.mem_cons.1 h with heq | hmem
          · exact .inl (hk ▸ heq)
          · exact .inr (List.mem_cons_of_mem _ hmem)
      · rcases List.mem_cons.1 h with heq | hmem
        · exact .inr (heq ▸ List.mem_cons_self)
        · rcases ih hmem with heq | hmem
          · exact .inl heq
          · exact .inr (List.mem_cons_of_mem _ hmem)

theorem mem_adjust {table : Table α β} {key : α} {f : β → β} {pair : α × β}
    (h : pair ∈ table.adjust key f) :
    pair ∈ table ∨ ∃ value, (key, value) ∈ table ∧ pair = (key, f value) := by
  induction table with
  | nil => cases h
  | cons first rest ih =>
      obtain ⟨k, old⟩ := first
      rw [adjust] at h
      split at h
      · next hk =>
          rcases List.mem_cons.1 h with heq | hmem
          · exact .inr ⟨old, hk ▸ List.mem_cons_self, hk ▸ heq⟩
          · exact .inl (List.mem_cons_of_mem _ hmem)
      · rcases List.mem_cons.1 h with heq | hmem
        · exact .inl (heq ▸ List.mem_cons_self)
        · rcases ih hmem with hold | ⟨value, hvalue, heq⟩
          · exact .inl (List.mem_cons_of_mem _ hold)
          · exact .inr ⟨value, List.mem_cons_of_mem _ hvalue, heq⟩

theorem adjust_put (table : Table α β) (key : α) (value : β) (f : β → β) :
    (table.put key value).adjust key f = table.put key (f value) := by
  induction table with
  | nil => simp [put, adjust]
  | cons pair rest ih =>
      obtain ⟨k, old⟩ := pair
      by_cases hk : k = key
      · simp [put, adjust, hk]
      · simp [put, adjust, hk, ih]

theorem adjust_adjust (table : Table α β) (key : α) (f g : β → β) :
    (table.adjust key f).adjust key g = table.adjust key fun value => g (f value) := by
  induction table with
  | nil => rfl
  | cons pair rest ih =>
      obtain ⟨k, old⟩ := pair
      by_cases hk : k = key
      · simp [adjust, hk]
      · simp [adjust, hk, ih]

/-- Only the value that is there matters. -/
theorem adjust_eq_of_find? {table : Table α β} {key : α} {value : β}
    (h : table.find? key = some value) (f : β → β) :
    table.adjust key f = table.adjust key fun _ => f value := by
  induction table with
  | nil => rfl
  | cons pair rest ih =>
      obtain ⟨k, old⟩ := pair
      by_cases hk : k = key
      · simp only [find?, hk, if_true, Option.some.injEq] at h
        simp [adjust, hk, h]
      · simp only [find?, hk, if_false] at h
        simp [adjust, hk, ih h]

theorem adjust_id {table : Table α β} {key : α} {value : β} (h : table.find? key = some value) :
    (table.adjust key fun _ => value) = table := by
  induction table with
  | nil => rfl
  | cons pair rest ih =>
      obtain ⟨k, old⟩ := pair
      by_cases hk : k = key
      · simp only [find?, hk, if_true, Option.some.injEq] at h
        simp [adjust, hk, h]
      · simp only [find?, hk, if_false] at h
        simp [adjust, hk, ih h]

/-- The value under the last key, where no earlier key is the same. -/
theorem adjust_append_self {table : Table α β} {key : α} (h : key ∉ table.keys) (value : β)
    (f : β → β) : Table.adjust (table ++ [(key, value)]) key f = table ++ [(key, f value)] := by
  rw [← put_of_not_mem h, adjust_put, put_of_not_mem h]

theorem Distinct.put {table : Table α β} (h : table.Distinct) (key : α) (value : β) :
    (table.put key value).Distinct := by
  unfold Distinct at h ⊢
  rw [keys_put]
  split
  · exact h
  · next hm =>
      refine List.nodup_append.2 ⟨h, by simp, ?_⟩
      intro a ha b hb hab
      rw [List.mem_singleton.1 hb] at hab
      exact hm (hab ▸ ha)

theorem Distinct.adjust {table : Table α β} (h : table.Distinct) (key : α) (f : β → β) :
    (table.adjust key f).Distinct := by
  unfold Distinct at h ⊢
  rwa [keys_adjust]

theorem Distinct.erase {table : Table α β} (h : table.Distinct) (key : α) :
    (table.erase key).Distinct := by
  unfold Distinct at h ⊢
  rw [keys_erase]
  exact List.Nodup.erase key h

end Table

end Ini
