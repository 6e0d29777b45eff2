import Ini.Config.Query
import Ini.Proofs.Orderly
import Mathlib.Data.List.Forall2

/-!
# What the view shows

Two configurations are compared part by part: the dialects, the name of the defaults,
the defaults, the sections in their order, the entries of each in theirs. The
comparison goes through the sections in pairs and has to count them besides, since
pairing leaves off what one side has too many.

The view is one list of sections, with the defaults among them if there are any.
Nothing is lost in it: as long as no section bears the name of the defaults, what
bears that name in the view are the defaults, and the rest are the sections
(`ofView_view`). So configurations of one dialect are equal just if their views are.
-/

namespace Ini

/-- A table is told by its keys in their order and what stands under each. -/
theorem Table.Distinct.eq_of_find? {α β : Type} [DecidableEq α] {table other : Table α β}
    (h : table.Distinct) (hkeys : table.keys = other.keys)
    (hfind : ∀ key, table.find? key = other.find? key) : table = other := by
  induction table generalizing other with
  | nil => exact (List.map_eq_nil_iff.1 hkeys.symm).symm
  | cons pair rest ih =>
      obtain ⟨⟨k, new⟩, back, rfl, rfl, hback⟩ := List.map_eq_cons_iff.1 hkeys.symm
      obtain ⟨key, value⟩ := pair
      obtain ⟨hnew, hrest⟩ := List.nodup_cons.1 h
      have hvalue : value = new := by simpa [Table.find?] using hfind key
      have hagree : ∀ wanted, Table.find? rest wanted = Table.find? back wanted := by
        intro wanted
        by_cases hwanted : key = wanted
        · subst hwanted
          rw [find?_eq_none_iff.2 hnew, eq_comm, find?_eq_none_iff, keys, hback]
          exact hnew
        · simpa [Table.find?, hwanted] using hfind wanted
      rw [hvalue, ih hrest hback.symm hagree]

namespace Store

variable {d : Dialect} {s t : Store} {left right : Entries}

theorem sameEntries_iff : sameEntries left right = true ↔ left = right := by
  unfold sameEntries
  induction left generalizing right with
  | nil => cases right <;> simp [List.isEqv]
  | cons entry rest ih => cases right <;> simp [List.isEqv, ih, Prod.ext_iff]

/-- The comparison is equality. -/
theorem same_iff : s.same t = true ↔ s = t := by
  have hsections : s.sections = t.sections ↔ s.sections.length = t.sections.length ∧
      ∀ pair ∈ s.sections.zip t.sections, pair.1 = pair.2 := by
    rw [← List.forall₂_eq_eq_eq, List.forall₂_iff_zip]
    simp only [Prod.forall]
  obtain ⟨name, defaults, sections⟩ := s
  obtain ⟨name', defaults', sections'⟩ := t
  simp only at hsections
  simp [same, sameEntries_iff, hsections, Prod.ext_iff, and_assoc]

/-- The store of which this is the view, where the defaults have this name. -/
def ofView (name : Text) (view : Table Text Entries) : Store where
  defaultName := name
  defaults := (view.find? name).getD []
  sections := view.filter fun pair => pair.1 ≠ name

theorem ofView_view (h : s.defaultName ∉ s.sectionNames) : ofView s.defaultName s.view = s := by
  obtain ⟨name, defaults, sections⟩ := s
  have hfind : sections.find? name = none := Table.find?_eq_none_iff.2 h
  have hfilter : sections.filter (fun pair => pair.1 ≠ name) = sections := by
    refine List.filter_eq_self.2 fun pair hpair => decide_eq_true fun hname => ?_
    exact h (hname ▸ List.mem_map_of_mem hpair)
  cases defaults with
  | nil =>
      simp only [ofView, view, List.isEmpty_nil, if_true, List.nil_append, hfind, hfilter,
        Option.getD_none]
  | cons entry rest =>
      have hhead : List.filter (fun pair => pair.1 ≠ name) ((name, entry :: rest) :: sections) =
          sections := by
        rw [List.filter_cons_of_neg (by simp), hfilter]
      simp only [ofView, view, List.isEmpty_cons, Bool.false_eq_true, if_false,
        List.singleton_append, hhead, Table.find?, if_true, Option.getD_some]

/-- Only under the reserved name can a section bear the name of the defaults. -/
theorem Orderly.defaultName_not_mem (h : s.Orderly d) (hdefault : d.defaultSection ≠ unnamedSection) :
    s.defaultName ∉ s.sectionNames := by
  rw [h.defaultName]
  exact fun hmem => hdefault ((h.named _ hmem).2 rfl)

theorem Orderly.eq_of_view (hs : s.Orderly d) (ht : t.Orderly d)
    (hdefault : d.defaultSection ≠ unnamedSection) (h : s.view = t.view) : s = t := by
  rw [← ofView_view (hs.defaultName_not_mem hdefault), h, hs.defaultName, ← ht.defaultName]
  exact ofView_view (ht.defaultName_not_mem hdefault)

/-- The names of the sections and the entries behind each name tell a store. -/
theorem Orderly.eq_of_entries? (hs : s.Orderly d) (ht : t.Orderly d)
    (hdefault : d.defaultSection ≠ unnamedSection) (hnames : s.sectionNames = t.sectionNames)
    (h : ∀ name, s.entries? name = t.entries? name) : s = t := by
  have hname : s.defaultName = t.defaultName := hs.defaultName.trans ht.defaultName.symm
  have hdefaults : s.defaults = t.defaults := by
    simpa [Store.entries?, hname] using h s.defaultName
  have hsections : s.sections = t.sections := by
    refine hs.wellFormed.1.eq_of_find? hnames fun name => ?_
    by_cases hown : name = s.defaultName
    · have hmem := hs.defaultName_not_mem hdefault
      have hmem' := ht.defaultName_not_mem hdefault
      rw [hown, Table.find?_eq_none_iff.2 hmem, hname, Table.find?_eq_none_iff.2 hmem']
    · simpa [Store.entries?, hown, hname ▸ hown] using h name
  obtain ⟨name, defaults, sections⟩ := s
  cases hname
  cases hdefaults
  cases hsections
  rfl

end Store

namespace Config

theorem same_iff {c other : Config} : c.same other = true ↔ c = other := by
  rw [same, Bool.and_eq_true, decide_eq_true_eq, Store.same_iff]
  obtain ⟨d, s⟩ := c
  obtain ⟨d', s'⟩ := other
  rw [mk.injEq]

/-- Two configurations of one dialect that edits lead to are equal just if their
views are, or again, just if they have the same sections in the same order with the
same entries behind every name. The comparison finds just those equal that are the
same in all parts, and so it is an equivalence. -/
theorem same_iff_view_eq :
    (∀ c other : Config, c.Reachable → other.Reachable → c.dialect = other.dialect →
      c.dialect.defaultSection ≠ unnamedSection →
        (c.same other = true ↔ c.view = other.view) ∧
        (c.same other = true ↔ c.sectionNames = other.sectionNames ∧
          ∀ name, c.store.entries? name = other.store.entries? name)) ∧
    (∀ c other : Config, c.same other = true ↔ c = other) ∧
    Equivalence fun c other : Config => c.same other = true := by
  refine ⟨fun c other hc hother hdialect hdefault => ?_, fun c other => same_iff, ?_⟩
  · have hs := hc.orderly
    have ht := hother.orderly
    rw [← hdialect] at ht
    have hconfig : c = other ↔ c.store = other.store := by
      obtain ⟨d, s⟩ := c
      obtain ⟨d', s'⟩ := other
      cases hdialect
      simp
    rw [same_iff, hconfig]
    refine ⟨⟨fun h => congrArg Store.view h, hs.eq_of_view ht hdefault⟩, ?_⟩
    constructor
    · intro h
      rw [sectionNames, sectionNames, h]
      exact ⟨rfl, fun _ => rfl⟩
    · exact fun ⟨hnames, hentries⟩ => hs.eq_of_entries? ht hdefault hnames hentries
  · simp only [same_iff]
    exact eq_equivalence

/-- A section with a key that has no value. -/
def bare : Config :=
  ⟨.standard, { defaultName := defaultSectionName, sections := [("a".toList, [(['k'], none)])] }⟩

/-- A section with a key that has an empty value. -/
def blank : Config :=
  ⟨.standard, { defaultName := defaultSectionName, sections := [("a".toList, [(['k'], some [])])] }⟩

theorem same_iff_view_eq_blank :
    bare.Reachable ∧ blank.Reachable ∧ bare.dialect = blank.dialect ∧
      blank.dialect.defaultSection ≠ unnamedSection ∧
      bare.view ≠ blank.view ∧ bare.same blank = false ∧
      blank.same ((empty .standard).applyAll [.read [] "[a]\nK=".toList]) = true := by
  have hbare : bare.Reachable := ⟨.standard, [.addSection "a".toList, .set "a".toList ['k'] none], rfl⟩
  have hblank : blank.Reachable :=
    ⟨.standard, [.addSection "a".toList, .set "a".toList ['k'] (some [])], rfl⟩
  have hdefault : Dialect.standard.defaultSection ≠ unnamedSection := by decide
  have hview : bare.view ≠ blank.view := by decide
  obtain ⟨hall, -, -⟩ := same_iff_view_eq
  refine ⟨hbare, hblank, rfl, hdefault, hview, ?_, ?_⟩
  · rw [Bool.eq_false_iff]
    exact mt (hall bare blank hbare hblank rfl hdefault).1.1 hview
  · exact (hall blank _ hblank ⟨_, _, rfl⟩ rfl hdefault).1.2 rfl

end Config

end Ini
