import Ini.Render

/-!
# Stores with other values

Where the values of a store are all changed by one function, nothing else
changes: the sections, the keys and their order stay, and so does all that
depends on them alone.
-/

namespace Ini

/-- The table with each of its values changed. -/
def Table.mapValues {α β γ : Type} (f : β → γ) (table : Table α β) : Table α γ :=
  table.map fun pair => (pair.1, f pair.2)

/-- The store with each value changed, defaults included. -/
def Store.mapValues (f : Option Text → Option Text) (s : Store) : Store where
  defaultName := s.defaultName
  defaults := s.defaults.mapValues f
  sections := s.sections.mapValues (Table.mapValues f)

namespace Table

variable {α β γ : Type} {table : Table α β} {f : β → γ}

@[simp] theorem mapValues_nil : mapValues f ([] : Table α β) = [] := rfl

@[simp] theorem mapValues_cons {pair : α × β} :
    mapValues f (pair :: table) = (pair.1, f pair.2) :: table.mapValues f := rfl

@[simp] theorem keys_mapValues : (table.mapValues f).keys = table.keys := by
  simp [keys, mapValues, Function.comp_def]

theorem distinct_mapValues : (table.mapValues f).Distinct ↔ table.Distinct := by
  rw [Distinct, Distinct, keys_mapValues]

theorem mapValues_eq_self_iff {f : β → β} :
    table.mapValues f = table ↔ ∀ pair ∈ table, f pair.2 = pair.2 := by
  induction table with
  | nil => simp
  | cons pair rest ih =>
      rw [mapValues_cons, List.cons_eq_cons, ih, List.forall_mem_cons, Prod.ext_iff]
      simp

theorem find?_mapValues [DecidableEq α] (key : α) :
    (table.mapValues f).find? key = (table.find? key).map f := by
  induction table with
  | nil => rfl
  | cons pair rest ih =>
      simp only [mapValues_cons, find?]
      split
      · rfl
      · exact ih

end Table

namespace Store

variable {f : Option Text → Option Text} {s : Store}

@[simp] theorem entries?_mapValues (name : Text) :
    (s.mapValues f).entries? name = (s.entries? name).map (Table.mapValues f) := by
  have hname : (s.mapValues f).defaultName = s.defaultName := rfl
  rw [entries?, entries?, hname]
  split
  · rfl
  · exact Table.find?_mapValues name

@[simp] theorem sectionNames_mapValues : (s.mapValues f).sectionNames = s.sectionNames :=
  Table.keys_mapValues

theorem headed_mapValues : (s.mapValues f).headed = s.headed.mapValues (Table.mapValues f) := by
  have hdefaults : (s.mapValues f).defaults = s.defaults.mapValues f := rfl
  rw [headed, headed, Table.mapValues, List.map_append, hdefaults]
  congr 1
  · cases s.defaults with
    | nil => rfl
    | cons pair rest => rfl
  · exact List.filter_map

theorem WellFormed.mapValues (h : s.WellFormed) (f : Option Text → Option Text) :
    (s.mapValues f).WellFormed := by
  refine ⟨Table.distinct_mapValues.2 h.1, Table.distinct_mapValues.2 h.2.1, ?_⟩
  intro part hpart
  obtain ⟨before, hbefore, rfl⟩ := List.mem_map.1 hpart
  exact Table.distinct_mapValues.2 (h.2.2 before hbefore)

theorem mapValues_eq_self_iff :
    s.mapValues f = s ↔ ∀ part ∈ s.view, ∀ pair ∈ part.2, f pair.2 = pair.2 := by
  have hsections : s.sections.mapValues (Table.mapValues f) = s.sections ↔
      ∀ part ∈ s.sections, ∀ pair ∈ part.2, f pair.2 = pair.2 := by
    simp only [Table.mapValues_eq_self_iff]
  have hdefaults : s.defaults.mapValues f = s.defaults ↔
      ∀ part ∈ (if s.defaults.isEmpty then [] else [(s.defaultName, s.defaults)]),
        ∀ pair ∈ part.2, f pair.2 = pair.2 := by
    rw [Table.mapValues_eq_self_iff]
    cases s.defaults with
    | nil => simp
    | cons pair rest =>
        rw [List.isEmpty_cons, if_neg Bool.false_ne_true, List.forall_mem_singleton]
  rw [view, List.forall_mem_append, ← hdefaults, ← hsections]
  constructor
  · intro h
    exact ⟨congrArg Store.defaults h, congrArg Store.sections h⟩
  · intro h
    rw [mapValues, h.1, h.2]

@[simp] theorem mapValues_id (s : Store) : s.mapValues id = s :=
  mapValues_eq_self_iff.2 fun _ _ _ _ => rfl

end Store

end Ini
