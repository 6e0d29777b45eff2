import Ini.Proofs.Stored

/-!
# Changes that are taken back

A change by hand can be taken back: a section that was added is taken out, a value that
was stored under a new key is taken out too, and one that was stored in place of another
is replaced by it. What comes back is the configuration itself, the order of its sections
and entries included. A new entry was the last, so that no other has moved, and a replaced
one never left its place.

A change that is refused, and the removal of something that is not there, leave no trace.
A removal that finds something closes the gap and touches nothing else
(`Table.Removed`).
-/

namespace Ini

namespace Table

variable {α β : Type} [DecidableEq α] {table : Table α β} {key : α} {value old : β}

theorem erase_append_of_not_mem {front : Table α β} (h : key ∉ front.keys) (back : Table α β) :
    Table.erase (front ++ back) key = front ++ back.erase key := by
  induction front with
  | nil => rfl
  | cons pair rest ih =>
      obtain ⟨k, other⟩ := pair
      have hk : key ≠ k := fun e => h (e ▸ List.mem_cons_self)
      have hrest : key ∉ keys rest := fun hmem => h (List.mem_cons_of_mem _ hmem)
      rw [List.cons_append, erase, if_neg (Ne.symm hk), ih hrest]
      rfl

theorem erase_of_not_mem (h : key ∉ table.keys) : table.erase key = table := by
  have happend := erase_append_of_not_mem h []
  rwa [List.append_nil, erase, List.append_nil] at happend

/-- What was put last is taken out again. -/
theorem erase_put (h : key ∉ table.keys) (value : β) : (table.put key value).erase key = table := by
  rw [put_of_not_mem h, erase_append_of_not_mem h, erase, if_pos rfl, List.append_nil]

/-- A value that is put back in its place. -/
theorem put_put (h : table.find? key = some old) (value : β) :
    (table.put key value).put key old = table := by
  obtain ⟨front, back, rfl, hfront⟩ := exists_append_of_find? h
  rw [put_append_of_not_mem hfront, put, if_pos rfl, put_append_of_not_mem hfront, put, if_pos rfl]

/-- The second table is the first without a key, and all other keys have the values and
the order that they had. -/
inductive Removed (key : α) : Table α β → Table α β → Prop
  | intro {front back : Table α β} {value : β} (hfront : key ∉ front.keys)
      (hback : key ∉ back.keys) : Removed key (front ++ (key, value) :: back) (front ++ back)

theorem removed_erase (h : table.Distinct) (hmem : key ∈ table.keys) :
    Removed key table (table.erase key) := by
  obtain ⟨value, hfind⟩ := Option.isSome_iff_exists.1 (contains_iff_mem_keys.2 hmem)
  obtain ⟨front, back, rfl, hfront⟩ := exists_append_of_find? hfind
  have hback : key ∉ keys back := by
    rw [Distinct, keys, List.map_append, List.map_cons] at h
    exact (List.nodup_cons.1 (List.nodup_append.1 h).2.1).1
  rw [erase_append_of_not_mem hfront, erase, if_pos rfl]
  exact .intro hfront hback

end Table

namespace Store

variable {s : Store} {name key : Text} {own : Entries} {old : Option Text}

theorem removeSection_insertSection (h : s.hasSection name = false) :
    (s.insertSection name).removeSection name = s := by
  have hname : name ∉ s.sections.keys := Table.contains_eq_false_iff.1 h
  rw [insertSection, if_neg (Bool.eq_false_iff.1 h), removeSection, Table.erase_put hname]

theorem removeSection_of_not_mem (h : s.hasSection name = false) : s.removeSection name = s := by
  have hname : name ∉ s.sections.keys := Table.contains_eq_false_iff.1 h
  rw [removeSection, Table.erase_of_not_mem hname]

theorem entries?_put_self (h : s.entries? name = some own) (key : Text) (value : Option Text) :
    (s.put name key value).entries? name = some (own.put key value) := by
  rw [entries?_put, if_pos rfl, h, Option.map_some]

theorem remove_put (h : s.entries? name = some own) (hkey : key ∉ own.keys) (value : Option Text) :
    (s.put name key value).remove name key = s := by
  rw [put, remove, adjust_adjust, adjust_eq_of_entries? h, Table.erase_put hkey, adjust_id h]

theorem remove_of_not_mem (h : s.entries? name = some own) (hkey : key ∉ own.keys) :
    s.remove name key = s := by
  rw [remove, adjust_eq_of_entries? h, Table.erase_of_not_mem hkey, adjust_id h]

theorem put_put (h : s.entries? name = some own) (hold : own.find? key = some old)
    (value : Option Text) : (s.put name key value).put name key old = s := by
  rw [put, put, adjust_adjust, adjust_eq_of_entries? h, Table.put_put hold, adjust_id h]

end Store

/-- The edit reads a text. Such an edit can fail and yet have stored something. -/
def Edit.reads : Edit → Bool
  | .read .. | .load .. => true
  | _ => false

namespace Config

variable {c c' : Config} {name key : Text} {value old : Option Text}

/-- A section is added or nothing is changed. -/
theorem addSection_cases (c : Config) (name : Text) :
    (∃ fault, c.addSection name = (c, .error fault)) ∨
      c.store.hasSection name = false ∧
        c.addSection name = ({ c with store := c.store.insertSection name }, .ok ()) := by
  rw [addSection]
  split
  · exact .inl ⟨_, rfl⟩
  · split
    · exact .inl ⟨_, rfl⟩
    · split
      · exact .inl ⟨_, rfl⟩
      · next hhas => exact .inr ⟨Bool.eq_false_iff.2 hhas, rfl⟩

section

variable {own : Entries} (h : c.store.entries? (c.target name) = some own) (key : Text)

include h

theorem set_eq (value : Option Text) :
    c.set name key value =
      ({ c with store := c.store.put (c.target name) key.fold value }, .ok ()) := by
  rw [set, h]

theorem unset_eq :
    c.unset name key =
      ({ c with store := c.store.remove (c.target name) key.fold },
        .ok (own.contains key.fold)) := by
  rw [unset, h]

theorem own?_eq : c.store.own? (c.target name) key = own.find? key := by
  rw [Store.own?, h, Option.bind_some]

end

theorem removeSection_of_addSection (h : c.addSection name = (c', .ok ())) :
    c'.removeSection name = (c, true) := by
  rcases addSection_cases c name with ⟨fault, hfault⟩ | ⟨hhas, hok⟩
  · rw [hfault] at h
    cases h
  · rw [hok] at h
    cases h
    have hmade : (c.store.insertSection name).hasSection name = true := by
      rw [Store.hasSection_iff_mem, Store.sectionNames_insertSection]
      split <;> simp [*]
    rw [removeSection, hmade, Store.removeSection_insertSection hhas]

theorem unset_of_set (h : c.set name key value = (c', .ok ()))
    (hnew : c.store.own? (c.target name) key.fold = none) :
    c'.unset name key = (c, .ok true) := by
  obtain ⟨hsome, rfl⟩ := set_eq_ok_iff.1 h
  obtain ⟨own, hown⟩ := Option.isSome_iff_exists.1 hsome
  rw [own?_eq hown, Table.find?_eq_none_iff] at hnew
  have hput := Store.entries?_put_self hown key.fold value
  have hcontains : Table.contains (own.put key.fold value) key.fold = true := by
    rw [Table.contains, Table.find?_put, if_pos rfl, Option.isSome_some]
  refine (unset_eq hput key).trans ?_
  have hback := Store.remove_put hown hnew value
  rw [hcontains]
  exact congrArg (fun s => (Config.mk c.dialect s, Except.ok true)) hback

theorem set_of_set (h : c.set name key value = (c', .ok ()))
    (hold : c.store.own? (c.target name) key.fold = some old) :
    c'.set name key old = (c, .ok ()) := by
  obtain ⟨hsome, rfl⟩ := set_eq_ok_iff.1 h
  obtain ⟨own, hown⟩ := Option.isSome_iff_exists.1 hsome
  rw [own?_eq hown] at hold
  have hput := Store.entries?_put_self hown key.fold value
  have hback := Store.put_put hown hold value
  refine (set_eq hput key old).trans ?_
  exact congrArg (fun s => (Config.mk c.dialect s, Except.ok ())) hback

/-- An edit fails, or finds nothing to take out. -/
def Refused (outcome : Except Fault (Option Bool)) : Prop :=
  ∀ answer, outcome = .ok answer → answer = some false

theorem apply_of_refused {edit : Edit} (hedit : edit.reads = false)
    (h : Refused (c.apply edit).2) : (c.apply edit).1 = c := by
  cases edit with
  | read | load => cases hedit
  | clear => cases h none rfl
  | addSection name =>
      rcases addSection_cases c name with ⟨fault, hfault⟩ | ⟨-, hok⟩
      · rw [apply, hfault]
        rfl
      · rw [apply, hok] at h
        cases h none rfl
  | removeSection name =>
      have hhas : c.store.hasSection name = false := Option.some.inj (h _ rfl)
      exact congrArg (Config.mk c.dialect) (Store.removeSection_of_not_mem hhas)
  | set name key value =>
      cases hown : c.store.entries? (c.target name) with
      | none =>
          rw [apply, set, hown]
          rfl
      | some own =>
          rw [apply, set_eq hown] at h
          cases h none rfl
  | unset name key =>
      cases hown : c.store.entries? (c.target name) with
      | none =>
          rw [apply, unset, hown]
          rfl
      | some own =>
          rw [apply, unset_eq hown] at h ⊢
          have hkey : own.contains key.fold = false := Option.some.inj (h _ rfl)
          rw [Table.contains_eq_false_iff] at hkey
          exact congrArg (Config.mk c.dialect) (Store.remove_of_not_mem hown hkey)

/-- What was changed by hand can be changed back, and then the configuration is what it
was, the order of sections and entries included. An edit that fails or finds nothing to
take out changes nothing, and one that takes something out leaves all else in its place. -/
theorem restored_of_edit (hc : c.Reachable) :
    (∀ name c', c.addSection name = (c', .ok ()) → c'.removeSection name = (c, true)) ∧
    (∀ name key value c', c.set name key value = (c', .ok ()) →
      (c.store.own? (c.target name) key.fold = none → c'.unset name key = (c, .ok true)) ∧
      ∀ old, c.store.own? (c.target name) key.fold = some old →
        c'.set name key old = (c, .ok ())) ∧
    (∀ edit, edit.reads = false → Refused (c.apply edit).2 → (c.apply edit).1 = c) ∧
    (∀ name c', c.removeSection name = (c', true) →
      ∃ rest, Table.Removed name c.store.sections rest ∧
        c' = { c with store := { c.store with sections := rest } }) ∧
    ∀ name key c', c.unset name key = (c', .ok true) →
      ∃ s, c.store.Changed (c.target name) (Table.Removed key.fold) s ∧
        c' = { c with store := s } := by
  have hstore := hc.orderly.wellFormed
  refine ⟨fun _ _ => removeSection_of_addSection,
    fun _ _ _ _ h => ⟨unset_of_set h, fun _ => set_of_set h⟩, fun _ => apply_of_refused, ?_, ?_⟩
  · intro name c' h
    obtain ⟨rfl, hhas⟩ := Prod.mk.inj h
    exact ⟨_, Table.removed_erase hstore.1 (Store.hasSection_iff_mem.1 hhas), rfl⟩
  · intro name key c' h
    cases hown : c.store.entries? (c.target name) with
    | none =>
        rw [unset, hown] at h
        cases h
    | some own =>
        rw [unset_eq hown] at h
        obtain ⟨rfl, hfound⟩ := Prod.mk.inj h
        have hkey : key.fold ∈ own.keys := Table.contains_iff_mem_keys.1 (Except.ok.inj hfound)
        have hdistinct := hstore.distinct (Store.mem_tables_of_entries? hown)
        exact ⟨_, Store.changed_adjust hown (Table.removed_erase hdistinct hkey), rfl⟩

/-- A section is added and removed, a default is made and removed, a value is replaced and
put back before another entry, and what is already there cannot be added. -/
theorem restored_of_edit_overriding :
    overriding.Reachable ∧
      (∃ c', overriding.addSection "db".toList = (c', .ok ()) ∧
        c'.sectionNames = ["web".toList, "db".toList] ∧
        c'.removeSection "db".toList = (overriding, true)) ∧
      (∃ c', overriding.set [] "Root".toList none = (c', .ok ()) ∧
        c'.getRaw "web".toList "root".toList = .ok none ∧
        c'.unset [] "ROOT".toList = (overriding, .ok true)) ∧
      (∃ c', overriding.set "web".toList "PORT".toList (some "80".toList) = (c', .ok ()) ∧
        c'.getRaw "web".toList "port".toList = .ok (some "80".toList) ∧
        c'.set "web".toList "PORT".toList (some "%(load)s".toList) = (overriding, .ok ())) ∧
      (overriding.apply (.addSection "web".toList)).1 = overriding ∧
      (overriding.apply (.unset "web".toList "load".toList)).1 = overriding ∧
      ∃ c' s, overriding.unset "web".toList "Port".toList = (c', .ok true) ∧
        overriding.store.Changed "web".toList (Table.Removed "port".toList) s ∧
        c' = { overriding with store := s } := by
  obtain ⟨hadded, hset, hrefused, -, hunset⟩ := restored_of_edit reachable_overriding
  have haddDb : overriding.addSection "db".toList =
      ({ overriding with store := overriding.store.insertSection "db".toList }, .ok ()) := rfl
  have hsetRoot : overriding.set [] "Root".toList none =
      ({ overriding with store := overriding.store.put defaultSectionName "root".toList none },
        .ok ()) := rfl
  have hsetPort : overriding.set "web".toList "PORT".toList (some "80".toList) =
      ({ overriding with
          store := overriding.store.put "web".toList "port".toList (some "80".toList) },
        .ok ()) := rfl
  have hunsetPort : overriding.unset "web".toList "Port".toList =
      ({ overriding with store := overriding.store.remove "web".toList "port".toList },
        .ok true) := rfl
  obtain ⟨s, hchanged, hs⟩ := hunset _ _ _ hunsetPort
  refine ⟨reachable_overriding, ⟨_, haddDb, rfl, hadded _ _ haddDb⟩,
    ⟨_, hsetRoot, rfl, (hset _ _ _ _ hsetRoot).1 rfl⟩,
    ⟨_, hsetPort, rfl, (hset _ _ _ _ hsetPort).2 _ rfl⟩,
    hrefused _ rfl ?_, hrefused _ rfl ?_, _, s, hunsetPort, hchanged, hs⟩
  · intro answer h
    cases h
  · intro answer h
    exact (Except.ok.inj h).symm

end Config

end Ini
