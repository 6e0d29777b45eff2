import Ini.Proofs.Answers
import Ini.Proofs.Continued
import Ini.Proofs.Growth

/-!
# What storing a value changes

A value is stored in one place, and the answers of a configuration change in as many
as inherit it. Stored in a section it is the answer of that section to that key and
to no other question. Stored in the defaults it is the answer of every section that
does not own the key, be it there or not: an unknown section inherits too.

Nothing else changes, and nothing moves. The key stays in its place if the section
owns it and comes last if not. In which of the two tables of a store that happens is
told by `Store.Stored`; what it means to look something up afterwards, by
`Store.lookup_put`.
-/

namespace Ini

namespace Table

variable {α β : Type} [DecidableEq α]

theorem exists_append_of_find? {table : Table α β} {key : α} {value : β}
    (h : table.find? key = some value) :
    ∃ front back, table = front ++ (key, value) :: back ∧ key ∉ keys front := by
  induction table with
  | nil => cases h
  | cons pair rest ih =>
      obtain ⟨k, old⟩ := pair
      rw [find?] at h
      split at h
      · next hk =>
          cases h
          exact ⟨[], rest, by rw [hk]; rfl, List.not_mem_nil⟩
      · next hk =>
          obtain ⟨front, back, rfl, hkey⟩ := ih h
          refine ⟨(k, old) :: front, back, rfl, fun hmem => ?_⟩
          rcases List.mem_cons.1 hmem with heq | hmem
          · exact hk heq.symm
          · exact hkey hmem

theorem put_append_of_not_mem {front : Table α β} {key : α} (h : key ∉ front.keys)
    (back : Table α β) (value : β) :
    Table.put (front ++ back) key value = front ++ back.put key value := by
  induction front with
  | nil => rfl
  | cons pair rest ih =>
      obtain ⟨k, old⟩ := pair
      have hk : key ≠ k := fun e => h (e ▸ List.mem_cons_self)
      have hrest : key ∉ keys rest := fun hmem => h (List.mem_cons_of_mem _ hmem)
      rw [List.cons_append, put, if_neg (Ne.symm hk), ih hrest]
      rfl

/-- The second table is the first with a value stored under a key: in place of the old
value, or last if the key is new. -/
inductive Stored (key : α) (value : β) : Table α β → Table α β → Prop
  | replaced {front back : Table α β} {old : β} :
      Stored key value (front ++ (key, old) :: back) (front ++ (key, value) :: back)
  | added {table : Table α β} (h : key ∉ table.keys) :
      Stored key value table (table ++ [(key, value)])

theorem stored_put (table : Table α β) (key : α) (value : β) :
    Stored key value table (table.put key value) := by
  cases hfind : table.find? key with
  | none =>
      have hkey : key ∉ table.keys := find?_eq_none_iff.1 hfind
      rw [put_of_not_mem hkey]
      exact .added hkey
  | some old =>
      obtain ⟨front, back, rfl, hkey⟩ := exists_append_of_find? hfind
      rw [put_append_of_not_mem hkey, put, if_pos rfl]
      exact .replaced

end Table

namespace Store

variable {s : Store} {home key : Text} {value : Option Text}

/-- The second store is the first with the entries that a name addresses replaced by others
that stand in a relation to them. All other sections are the same and where they were. -/
inductive Changed (home : Text) (R : Entries → Entries → Prop) : Store → Store → Prop
  | defaults {s : Store} {after : Entries} (hhome : home = s.defaultName)
      (h : R s.defaults after) : Changed home R s { s with defaults := after }
  | named {s : Store} {front back : Table Text Entries} {before after : Entries}
      (hhome : home ≠ s.defaultName) (hsections : s.sections = front ++ (home, before) :: back)
      (h : R before after) :
      Changed home R s { s with sections := front ++ (home, after) :: back }

theorem changed_adjust {own : Entries} {R : Entries → Entries → Prop} {f : Entries → Entries}
    (h : s.entries? home = some own) (hR : R own (f own)) :
    Changed home R s (s.adjust home f) := by
  rw [adjust_eq_of_entries? h, adjust]
  by_cases hhome : home = s.defaultName
  · obtain rfl : s.defaults = own := by simpa [entries?, hhome] using h
    rw [if_pos hhome]
    exact .defaults hhome hR
  · have hfind : s.sections.find? home = some own := by simpa [entries?, hhome] using h
    obtain ⟨front, back, hsections, hnew⟩ := Table.exists_append_of_find? hfind
    rw [if_neg hhome, hsections, Table.adjust_append_of_not_mem hnew, Table.adjust, if_pos rfl]
    exact .named hhome hsections hR

/-- The second store is the first with a value stored under a key of the section that
a name addresses. All other sections and entries are the same and where they were. -/
def Stored (home key : Text) (value : Option Text) (s t : Store) : Prop :=
  Changed home (Table.Stored key value) s t

theorem stored_put {own : Entries} (h : s.entries? home = some own) (key : Text)
    (value : Option Text) : Stored home key value s (s.put home key value) :=
  changed_adjust h (Table.stored_put own key value)

theorem find?_eq (s : Store) (name key : Text) :
    s.find? name key = (s.own? name key).or (s.defaults.find? key) := rfl

theorem defaults_put (s : Store) (home key : Text) (value : Option Text) :
    (s.put home key value).defaults =
      if home = s.defaultName then s.defaults.put key value else s.defaults := by
  rw [put, adjust]
  split <;> rfl

section

variable (h : (s.entries? home).isSome = true) (key : Text) (value : Option Text)
  (other wanted : Text)

include h

theorem own?_put :
    (s.put home key value).own? other wanted =
      if wanted = key ∧ other = home then some value else s.own? other wanted := by
  split
  · next hsame =>
      rw [hsame.1, hsame.2]
      exact own?_put_self h key value
  · next hdiffer =>
      have hne : (home, key) ≠ (other, wanted) := by
        rintro ⟨⟩
        exact hdiffer ⟨rfl, rfl⟩
      exact own?_put_of_ne hne s value

/-- A section answers with a new value if it owns it, or inherits it. -/
theorem find?_put :
    (s.put home key value).find? other wanted =
      if wanted = key ∧ (other = home ∨ home = s.defaultName ∧ s.own? other wanted = none) then
        some value
      else s.find? other wanted := by
  rw [find?_eq, find?_eq, own?_put h, defaults_put]
  by_cases hkey : wanted = key
  · subst hkey
    by_cases hother : other = home
    · simp [hother]
    · by_cases hhome : home = s.defaultName
      · -- What the section itself says hides the default that was stored.
        subst hhome
        cases hown : s.own? other wanted <;> simp [hother, Table.find?_put]
      · simp [hother, hhome]
  · by_cases hhome : home = s.defaultName
    · simp [hkey, hhome, Table.find?_put, Ne.symm hkey]
    · simp [hkey, hhome]

theorem lookup_put :
    (s.put home key value).lookup other wanted =
      if wanted = key ∧ (other = home ∨ home = s.defaultName ∧ s.own? other wanted = none) then
        .ok value
      else s.lookup other wanted := by
  have hsome : ((s.put home key value).entries? other).isSome = (s.entries? other).isSome := by
    rw [entries?_put]
    split <;> simp
  rw [lookup, find?_put h, hsome, lookup]
  by_cases hnew : wanted = key ∧ (other = home ∨ home = s.defaultName ∧ s.own? other wanted = none)
  · rw [if_pos hnew, if_pos hnew]
  · rw [if_neg hnew, if_neg hnew]

end

end Store

namespace Config

variable {c c' : Config} {name key : Text} {value : Option Text}

theorem set_eq_ok_iff :
    c.set name key value = (c', .ok ()) ↔
      (c.store.entries? (c.target name)).isSome = true ∧
        c' = { c with store := c.store.put (c.target name) key.fold value } := by
  rw [set]
  cases hown : c.store.entries? (c.target name) with
  | none => simp
  | some own => simp [eq_comm]

/-- What storing a value does to a configuration that edits lead to. The value is the
answer of the section it is stored in and of those that inherit it, and every other
answer is what it was, faults included. The sections are the same and in the same
order, and so are all entries but the one, which has the place it had or the last. -/
theorem stored_of_set (hc : c.Reachable) (h : c.set name key value = (c', .ok ())) :
    (∀ other wanted, c'.getRaw other wanted =
      if wanted.fold = key.fold ∧ (other = c.target name ∨
          c.target name = c.dialect.defaultSection ∧ c.store.own? other wanted.fold = none) then
        .ok value
      else c.getRaw other wanted) ∧
    c.store.Stored (c.target name) key.fold value c'.store ∧
    c'.sectionNames = c.sectionNames ∧ c'.dialect = c.dialect := by
  obtain ⟨hsome, rfl⟩ := set_eq_ok_iff.1 h
  obtain ⟨own, hown⟩ := Option.isSome_iff_exists.1 hsome
  refine ⟨fun other wanted => ?_, Store.stored_put hown .., Store.sectionNames_put .., rfl⟩
  rw [← hc.orderly.defaultName]
  exact Store.lookup_put hsome ..

/-- A default is changed for a section that is there and for one that is not, and what
a section overrides stays. -/
theorem stored_of_set_overriding :
    overriding.Reachable ∧ ∃ c',
      overriding.set [] "LOAD".toList (some "9".toList) = (c', .ok ()) ∧
      c'.getRaw "web".toList "Load".toList = .ok (some "9".toList) ∧
      c'.getRaw "db".toList "load".toList = .ok (some "9".toList) ∧
      c'.getRaw "web".toList "base".toList = .ok none ∧
      c'.getRaw "db".toList "root".toList = .error (.noSection "db".toList) ∧
      overriding.store.Stored defaultSectionName "load".toList (some "9".toList) c'.store ∧
      c'.sectionNames = ["web".toList] := by
  have hset : overriding.set [] "LOAD".toList (some "9".toList) =
      ({ overriding with
          store := overriding.store.put defaultSectionName "load".toList (some "9".toList) },
        .ok ()) := rfl
  obtain ⟨hgetRaw, hstored, hnames, -⟩ := stored_of_set reachable_overriding hset
  exact ⟨reachable_overriding, _, hset, (hgetRaw _ _).trans rfl, (hgetRaw _ _).trans rfl,
    (hgetRaw _ _).trans rfl, (hgetRaw _ _).trans rfl, hstored, hnames⟩

end Config

end Ini
