import Ini.Fault
import Ini.Table

/-!
# The store

Sections and their entries in the order in which they arrived. The defaults
stand apart from the named sections and are addressed by a name of their own;
that name wins over a named section that happens to bear it.

A section inherits from the defaults: a key it does not own is looked up there.
An unknown section inherits as well, and is reported as unknown only when the
defaults do not have the key either.
-/

namespace Ini

/-- The entries of one section: folded keys, each with a value or alone. -/
abbrev Entries := Table Text (Option Text)

/-- The defaults and the named sections. -/
structure Store where
  defaultName : Text
  defaults : Entries := []
  sections : Table Text Entries := []
  deriving DecidableEq, Repr

namespace Store

/-- The names of the sections, the defaults not among them. -/
def sectionNames (s : Store) : List Text := s.sections.keys

/-- Whether a section of this name is there, the defaults apart. -/
def hasSection (s : Store) (name : Text) : Bool := s.sections.contains name

/-- The entries that a name addresses. -/
def entries? (s : Store) (name : Text) : Option Entries :=
  if name = s.defaultName then some s.defaults else s.sections.find? name

/-- Changes the entries that a name addresses; a name that addresses none
changes nothing. -/
def adjust (s : Store) (name : Text) (f : Entries → Entries) : Store :=
  if name = s.defaultName then { s with defaults := f s.defaults }
  else { s with sections := s.sections.adjust name f }

/-- Adds an empty section at the end unless it is there. -/
def insertSection (s : Store) (name : Text) : Store :=
  if s.hasSection name then s else { s with sections := s.sections.put name [] }

/-- Takes a section out. The defaults cannot be taken out. -/
def removeSection (s : Store) (name : Text) : Store :=
  { s with sections := s.sections.erase name }

/-- Stores an entry in the section that a name addresses. -/
def put (s : Store) (name key : Text) (value : Option Text) : Store :=
  s.adjust name (·.put key value)

/-- Takes an entry out of the section that a name addresses. -/
def remove (s : Store) (name key : Text) : Store := s.adjust name (·.erase key)

/-- The store with nothing in it. -/
def clear (s : Store) : Store := { defaultName := s.defaultName }

/-- What a section says about a key, itself or through the defaults. -/
def find? (s : Store) (name key : Text) : Option (Option Text) :=
  ((s.entries? name).bind (·.find? key)).or (s.defaults.find? key)

/-- The value of a key, or the reason why there is none. -/
def lookup (s : Store) (name key : Text) : Except Fault (Option Text) :=
  match s.find? name key with
  | some value => .ok value
  | none => .error (if (s.entries? name).isSome then .noOption name key else .noSection name)

/-- The entries of `base` that `own` does not own, in their order. -/
def inherited (own base : Entries) : Entries := base.filter fun entry => !own.contains entry.1

/-- What a section consists of: its own entries, then those it inherits. -/
def merged? (s : Store) (name : Text) : Option Entries :=
  (s.entries? name).map fun own =>
    if name = s.defaultName then own else own ++ inherited own s.defaults

/-- `merged?`, with the fault of an unknown section. -/
def mergedEntries (s : Store) (name : Text) : Except Fault Entries :=
  match s.merged? name with
  | some entries => .ok entries
  | none => .error (.noSection name)

/-- The store as a list of sections: the defaults first unless they are empty,
then the named sections. -/
def view (s : Store) : Table Text Entries :=
  (if s.defaults.isEmpty then [] else [(s.defaultName, s.defaults)]) ++ s.sections

/-- Whether the same entries stand in the same order. -/
def sameEntries (left right : Entries) : Bool :=
  left.isEqv right fun entry other => entry.1 = other.1 && entry.2 = other.2

/-- Whether the same sections stand in the same order, each with the same entries in
the same order, and the defaults are the same and called the same. -/
def same (s t : Store) : Bool :=
  s.defaultName = t.defaultName && sameEntries s.defaults t.defaults
    && s.sections.length = t.sections.length
    && (s.sections.zip t.sections).all fun (pair, other) =>
      pair.1 = other.1 && sameEntries pair.2 other.2

/-- No name and no key stands twice. -/
def WellFormed (s : Store) : Prop :=
  s.sections.Distinct ∧ s.defaults.Distinct ∧ ∀ pair ∈ s.sections, Table.Distinct pair.2

instance {s : Store} : Decidable s.WellFormed := inferInstanceAs (Decidable (_ ∧ _ ∧ _))

theorem entries?_adjust (s : Store) (name other : Text) (f : Entries → Entries) :
    (s.adjust name f).entries? other =
      if name = other then (s.entries? other).map f else s.entries? other := by
  by_cases hn : name = s.defaultName
  · subst hn
    by_cases ho : s.defaultName = other
    · simp [adjust, entries?, ho]
    · simp [adjust, entries?, ho, Ne.symm ho]
  · by_cases ho : other = s.defaultName
    · subst ho
      simp [adjust, entries?, hn]
    · simp [adjust, entries?, hn, ho, Table.find?_adjust]

@[simp] theorem defaultName_adjust (s : Store) (name : Text) (f : Entries → Entries) :
    (s.adjust name f).defaultName = s.defaultName := by
  unfold adjust
  split <;> rfl

@[simp] theorem defaultName_put (s : Store) (name key : Text) (value : Option Text) :
    (s.put name key value).defaultName = s.defaultName := defaultName_adjust ..

@[simp] theorem defaultName_insertSection (s : Store) (name : Text) :
    (s.insertSection name).defaultName = s.defaultName := by
  unfold insertSection
  split <;> rfl

theorem adjust_adjust (s : Store) (name : Text) (f g : Entries → Entries) :
    (s.adjust name f).adjust name g = s.adjust name fun entries => g (f entries) := by
  by_cases hn : name = s.defaultName
  · simp [adjust, hn]
  · simp [adjust, hn, Table.adjust_adjust]

/-- A value that is mended after it was stored might as well have been stored
so. -/
theorem adjust_put (s : Store) (name key : Text) (value : Option Text)
    (f : Option Text → Option Text) :
    (s.put name key value).adjust name (·.adjust key f) = s.put name key (f value) := by
  simp only [put, adjust_adjust, Table.adjust_put]

theorem adjust_eq_of_entries? {s : Store} {name : Text} {content : Entries}
    (h : s.entries? name = some content) (f : Entries → Entries) :
    s.adjust name f = s.adjust name fun _ => f content := by
  by_cases hn : name = s.defaultName
  · obtain rfl : s.defaults = content := by simpa [entries?, hn] using h
    simp [adjust, hn]
  · have hfind : s.sections.find? name = some content := by simpa [entries?, hn] using h
    simp [adjust, hn, Table.adjust_eq_of_find? hfind f]

theorem adjust_id {s : Store} {name : Text} {content : Entries}
    (h : s.entries? name = some content) : (s.adjust name fun _ => content) = s := by
  by_cases hn : name = s.defaultName
  · obtain rfl : s.defaults = content := by simpa [entries?, hn] using h
    simp [adjust, hn]
  · have hfind : s.sections.find? name = some content := by simpa [entries?, hn] using h
    simp [adjust, hn, Table.adjust_id hfind]

/-- A new entry goes to the end of its section. -/
theorem put_of_not_mem {s : Store} {name key : Text} {content : Entries}
    (h : s.entries? name = some content) (hkey : key ∉ content.keys) (value : Option Text) :
    s.put name key value = s.adjust name fun _ => content ++ [(key, value)] := by
  rw [put, adjust_eq_of_entries? h, Table.put_of_not_mem hkey]

theorem insertSection_of_not_mem {s : Store} {name : Text} (h : name ∉ s.sectionNames) :
    s.insertSection name = { s with sections := s.sections ++ [(name, [])] } := by
  have hfalse : s.hasSection name = false := Table.contains_eq_false_iff.2 h
  simp [insertSection, hfalse, Table.put_of_not_mem h]

theorem entries?_insertSection (s : Store) (name other : Text) :
    (s.insertSection name).entries? other =
      if name = other ∧ s.entries? other = none then some [] else s.entries? other := by
  by_cases hs : s.hasSection name = true
  · rw [insertSection, if_pos hs, if_neg]
    rintro ⟨rfl, hnone⟩
    rw [entries?] at hnone
    split at hnone
    · cases hnone
    · simp [hasSection, Table.contains, hnone] at hs
  · rw [insertSection, if_neg hs]
    by_cases ho : other = s.defaultName
    · simp [entries?, ho]
    · by_cases hn : name = other
      · subst hn
        have hnone : s.sections.find? name = none := by
          simpa [hasSection, Table.contains] using hs
        simp [entries?, ho, Table.find?_put, hnone]
      · simp [entries?, ho, Table.find?_put, hn]

theorem isSome_entries?_insertSection {s : Store} (name : Text) :
    ((s.insertSection name).entries? name).isSome = true := by
  rw [entries?_insertSection]
  cases s.entries? name <;> simp

theorem entries?_put (s : Store) (name key other : Text) (value : Option Text) :
    (s.put name key value).entries? other =
      if name = other then (s.entries? other).map (·.put key value) else s.entries? other :=
  entries?_adjust s name other _

theorem sectionNames_adjust (s : Store) (name : Text) (f : Entries → Entries) :
    (s.adjust name f).sectionNames = s.sectionNames := by
  unfold adjust
  split
  · rfl
  · exact Table.keys_adjust ..

theorem sectionNames_put (s : Store) (name key : Text) (value : Option Text) :
    (s.put name key value).sectionNames = s.sectionNames := sectionNames_adjust ..

theorem hasSection_iff_mem {s : Store} {name : Text} :
    s.hasSection name = true ↔ name ∈ s.sectionNames := Table.contains_iff_mem_keys

@[simp] theorem hasSection_adjust (s : Store) (name other : Text) (f : Entries → Entries) :
    (s.adjust name f).hasSection other = s.hasSection other := by
  rw [Bool.eq_iff_iff, hasSection_iff_mem, hasSection_iff_mem, sectionNames_adjust]

theorem sectionNames_insertSection (s : Store) (name : Text) :
    (s.insertSection name).sectionNames =
      if name ∈ s.sectionNames then s.sectionNames else s.sectionNames ++ [name] := by
  by_cases hname : name ∈ s.sectionNames
  · have hhas : s.hasSection name = true := Table.contains_iff_mem_keys.2 hname
    rw [insertSection, if_pos hhas, if_pos hname]
  · rw [insertSection_of_not_mem hname, if_neg hname]
    simp [sectionNames, Table.keys]

theorem mem_sectionNames_insertSection {s : Store} {name other : Text}
    (h : other ∈ (s.insertSection name).sectionNames) : other = name ∨ other ∈ s.sectionNames := by
  rw [sectionNames_insertSection] at h
  split at h
  · exact .inr h
  · rcases List.mem_append.1 h with hmem | hmem
    · exact .inr hmem
    · exact .inl (List.mem_singleton.1 hmem)

/-! ## Well-formed stores -/

theorem wellFormed_empty (name : Text) : WellFormed { defaultName := name } :=
  ⟨List.nodup_nil, List.nodup_nil, by simp⟩

theorem WellFormed.adjust {s : Store} (h : s.WellFormed) (name : Text) {f : Entries → Entries}
    (hf : ∀ entries : Entries, entries.Distinct → (f entries).Distinct) :
    (s.adjust name f).WellFormed := by
  obtain ⟨hsections, hdefaults, hentries⟩ := h
  unfold Store.adjust
  split
  · exact ⟨hsections, hf _ hdefaults, hentries⟩
  · refine ⟨hsections.adjust name f, hdefaults, fun pair hpair => ?_⟩
    rcases Table.mem_adjust hpair with hmem | ⟨content, hmem, rfl⟩
    · exact hentries pair hmem
    · exact hf content (hentries _ hmem)

theorem WellFormed.put {s : Store} (h : s.WellFormed) (name key : Text) (value : Option Text) :
    (s.put name key value).WellFormed :=
  h.adjust name fun _ hentries => hentries.put key value

theorem WellFormed.insertSection {s : Store} (h : s.WellFormed) (name : Text) :
    (s.insertSection name).WellFormed := by
  obtain ⟨hsections, hdefaults, hentries⟩ := h
  unfold Store.insertSection
  split
  · exact ⟨hsections, hdefaults, hentries⟩
  · refine ⟨hsections.put name [], hdefaults, fun pair hpair => ?_⟩
    rcases Table.mem_put hpair with rfl | hmem
    · exact List.nodup_nil
    · exact hentries pair hmem

end Store

end Ini
