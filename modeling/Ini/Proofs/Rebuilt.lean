import Ini.Proofs.Written
import Mathlib.Tactic.MkIffOfInductiveProp

/-!
# What is stored is rebuilt

Acting on the statements that a store makes, from nothing, gives the store
back: sections in their order, entries in theirs, no fault and no malformed
line. It takes a store that a reading could have left, `Store.Arranged`: the
entries without a header are written first, so the unnamed section has to come
first, and it has to hold something, for without an entry nothing makes it.

`Arranged.exists_read` puts this together with the spelling: a store that is
arranged and legible is rendered, and reading the text gives the store. Where
the lines say something else of a value, that is what the reading gives.
-/

namespace Ini

open Text

/-! ## Acting on entries -/

namespace Progress

variable {d : Dialect} {source name : Text} {p : Progress}

theorem act_entry {item : Item} {key : Text} {value : Option Text}
    (hs : item.statement = .entry key value) (hcurrent : p.current = some name)
    (hkey : ¬p.owns name key) :
    p.act d source item = ({ p with store := p.store.put name key value }, .ok ()) := by
  simp [act, hs, home, hcurrent, record, hkey]

theorem actAll_cons {item : Item} {q : Progress} (h : p.act d source item = (q, .ok ()))
    (rest : List Item) : p.actAll d source (item :: rest) = q.actAll d source rest := by
  rw [actAll, h]

theorem actAll_entries {content : Entries} :
    ∀ {items : List Item} {p : Progress} {before : Entries},
      items.map Item.statement = content.map Statement.ofEntry → p.current = some name →
      p.store.entries? name = some before → Table.Distinct (before ++ content) →
      ∀ rest, p.actAll d source (items ++ rest) =
        actAll d source rest
          { p with store := p.store.adjust name fun _ => before ++ content } := by
  induction content with
  | nil =>
      intro items p before hitems _ hbefore _ rest
      obtain rfl : items = [] := by simpa using hitems
      rw [List.append_nil, Store.adjust_id hbefore, List.nil_append]
  | cons pair content ih =>
      intro items p before hitems hcurrent hbefore hdistinct rest
      obtain ⟨key, value⟩ := pair
      obtain ⟨item, items, rfl, hitem, hrest⟩ := List.map_eq_cons_iff.1 hitems
      have hkey : key ∉ Table.keys before := by
        intro hmem
        simp only [Table.Distinct, Table.keys, List.map_append, List.map_cons,
          List.nodup_append] at hdistinct
        exact hdistinct.2.2 key hmem key List.mem_cons_self rfl
      have hnew : ¬p.owns name key := by
        intro howns
        obtain ⟨entries, hentries, hmem⟩ := howns
        rw [hbefore] at hentries
        cases hentries
        exact hkey hmem
      have hstored : (p.store.put name key value).entries? name =
          some (before ++ [(key, value)]) := by
        simp [Store.entries?_put, hbefore, Table.put_of_not_mem hkey]
      rw [List.cons_append, actAll_cons (act_entry hitem hcurrent hnew)]
      rw [ih (p := { p with store := p.store.put name key value }) hrest hcurrent hstored
        (by simpa using hdistinct)]
      rw [Store.put_of_not_mem hbefore hkey]
      simp [Store.adjust_adjust]

/-- Where there is no section yet, the first entry makes one. -/
theorem actAll_headless {item : Item} {key : Text} {value : Option Text}
    (hs : item.statement = .entry key value) (hcurrent : p.current = none)
    (hheadless : d.headless = true) (rest : List Item) :
    p.actAll d source (item :: rest) =
      actAll d source (item :: rest)
        { p with store := p.store.insertSection unnamedSection, current := some unnamedSection } := by
  simp only [actAll, act, hs, home, hcurrent, hheadless, if_true]

/-! ## Acting on sections -/

theorem act_header_default {item : Item} (hs : item.statement = .header d.defaultSection)
    (hne : d.defaultSection ≠ []) :
    p.act d source item = ({ p with current := some d.defaultSection }, .ok ()) := by
  simp [act, hs, begin, hne]

theorem act_header_new {item : Item} (hs : item.statement = .header name) (hne : name ≠ [])
    (hdefault : name ≠ d.defaultSection) (hnew : name ∉ p.store.sectionNames) :
    p.act d source item =
      ({ p with
          store := { p.store with sections := p.store.sections ++ [(name, [])] }
          current := some name }, .ok ()) := by
  have hhas : p.store.hasSection name = false := Table.contains_eq_false_iff.2 hnew
  simp [act, hs, begin, hne, hdefault, hhas, Store.insertSection_of_not_mem hnew]

theorem actAll_sections (source : Text) {sections : Table Text Entries} :
    ∀ {items : List Item} {p : Progress},
      items.map Item.statement =
        sections.flatMap (fun part => .header part.1 :: part.2.map Statement.ofEntry) →
      p.store.defaultName = d.defaultSection →
      (∀ part ∈ sections,
        part.1 ≠ [] ∧ part.1 ≠ d.defaultSection ∧ Table.Distinct part.2) →
      Table.Distinct (p.store.sections ++ sections) →
      ∃ current, p.actAll d source items =
        ({ p with
            store := { p.store with sections := p.store.sections ++ sections }
            current := current }, .ok ()) := by
  induction sections with
  | nil =>
      intro items p hitems _ _ _
      obtain rfl : items = [] := by simpa using hitems
      exact ⟨p.current, by simp [actAll]⟩
  | cons part sections ih =>
      intro items p hitems hname hparts hdistinct
      obtain ⟨name, content⟩ := part
      obtain ⟨hne, hdefault, hcontent⟩ := hparts (name, content) (by simp)
      rw [List.flatMap_cons, List.map_eq_append_iff] at hitems
      obtain ⟨front, items, rfl, hfront, hitems⟩ := hitems
      obtain ⟨item, entries, rfl, hitem, hentries⟩ := List.map_eq_cons_iff.1 hfront
      have hnew : name ∉ p.store.sectionNames := by
        intro hmem
        simp only [Table.Distinct, Table.keys, List.map_append, List.map_cons,
          List.nodup_append] at hdistinct
        exact hdistinct.2.2 name hmem name List.mem_cons_self rfl
      have hmade : Store.entries?
          { p.store with sections := p.store.sections ++ [(name, [])] } name = some [] := by
        have hnone : p.store.entries? name = none := by
          rw [Store.entries?, if_neg (hname ▸ hdefault), Table.find?_eq_none_iff]
          exact hnew
        rw [← Store.insertSection_of_not_mem hnew, Store.entries?_insertSection, if_pos ⟨rfl, hnone⟩]
      have hfilled : Store.adjust
          { p.store with sections := p.store.sections ++ [(name, [])] } name (fun _ => content) =
          { p.store with sections := p.store.sections ++ [(name, content)] } := by
        simp [Store.adjust, hname, hdefault, Table.adjust_append_self hnew]
      rw [List.cons_append, actAll_cons (act_header_new hitem hne hdefault hnew),
        actAll_entries hentries rfl hmade (by simpa using hcontent), List.nil_append, hfilled]
      obtain ⟨current, hall⟩ := ih (p := Progress.mk
          { p.store with sections := p.store.sections ++ [(name, content)] } (some name) p.malformed)
        hitems hname (fun part hpart => hparts part (by simp [hpart])) (by simpa using hdistinct)
      exact ⟨current, by simpa using hall⟩

end Progress

/-! ## Acting on a whole store -/

namespace Store

variable {d : Dialect} {spaced : Bool} {source : Text} {s : Store}

/-- A store that a reading could have left. -/
@[mk_iff]
structure Arranged (d : Dialect) (s : Store) : Prop where
  defaultName : s.defaultName = d.defaultSection
  wellFormed : s.WellFormed
  defaults : s.defaults ≠ [] → d.defaultSection ≠ []
  named : ∀ name ∈ s.sectionNames, name ≠ [] ∧ name ≠ d.defaultSection
  unnamed : ∀ content ∈ s.entries? unnamedSection,
    d.headless = true ∧ content ≠ [] ∧ s.sections.head? = some (unnamedSection, content)

instance : Decidable (s.Arranged d) := decidable_of_iff' _ (arranged_iff d s)

/-- The unnamed section, if there is one, and behind it the sections that are
written under a header. -/
theorem Arranged.exists_split (h : s.Arranged d) (hdefault : d.defaultSection ≠ unnamedSection) :
    ∃ named, s.sections =
        (s.entries? unnamedSection).toList.map (fun content => (unnamedSection, content)) ++ named ∧
      s.headed = (if s.defaults.isEmpty then [] else [(s.defaultName, s.defaults)]) ++ named := by
  have hne : unnamedSection ≠ s.defaultName := fun e => hdefault (by rw [e, h.defaultName])
  have hdistinct := h.wellFormed.1
  refine ⟨s.sections.filter fun part => part.1 ≠ unnamedSection, ?_, rfl⟩
  cases hunnamed : s.entries? unnamedSection with
  | none =>
      rw [entries?, if_neg hne, Table.find?_eq_none_iff] at hunnamed
      rw [Option.toList_none, List.map_nil, List.nil_append, eq_comm, List.filter_eq_self]
      intro part hpart
      have hpart' : part.1 ≠ unnamedSection := fun e => hunnamed (e ▸ List.mem_map_of_mem hpart)
      simpa using hpart'
  | some content =>
      obtain ⟨rest, hrest⟩ := List.head?_eq_some_iff.1 (h.unnamed content hunnamed).2.2
      rw [hrest] at hdistinct ⊢
      have hnot : unnamedSection ∉ Table.keys rest := (List.nodup_cons.1 hdistinct).1
      have hfilter : rest.filter (fun part => part.1 ≠ unnamedSection) = rest := by
        rw [List.filter_eq_self]
        intro part hpart
        have hpart' : part.1 ≠ unnamedSection := fun e => hnot (e ▸ List.mem_map_of_mem hpart)
        simpa using hpart'
      simpa using hfilter.symm

theorem Arranged.actAll_unnamed (h : s.Arranged d) (hdefault : d.defaultSection ≠ unnamedSection)
    {items : List Item} (hitems : items.map Item.statement =
      ((s.entries? unnamedSection).getD []).map Statement.ofEntry) :
    ∃ current, ∀ rest,
      Progress.actAll d source (items ++ rest) { store := { defaultName := d.defaultSection } } =
        Progress.actAll d source rest
          { store :=
              { defaultName := d.defaultSection
                sections := (s.entries? unnamedSection).toList.map fun content =>
                  (unnamedSection, content) }
            current := current } := by
  cases hunnamed : s.entries? unnamedSection with
  | none =>
      obtain rfl : items = [] := by simpa [hunnamed] using hitems
      exact ⟨none, fun rest => rfl⟩
  | some content =>
      obtain ⟨hheadless, hne, hhead⟩ := h.unnamed content hunnamed
      obtain ⟨pair, content', rfl⟩ := List.exists_cons_of_ne_nil hne
      rw [hunnamed] at hitems
      obtain ⟨item, items, rfl, hitem, -⟩ := List.map_eq_cons_iff.1 hitems
      have hdistinct : Table.Distinct ([] ++ pair :: content') :=
        h.wellFormed.2.2 _ (List.mem_of_head? hhead)
      have hmade : ({ defaultName := d.defaultSection } : Store).insertSection unnamedSection =
          { defaultName := d.defaultSection, sections := [(unnamedSection, [])] } :=
        insertSection_of_not_mem (by simp [sectionNames, Table.keys])
      have hfound : entries? { defaultName := d.defaultSection, sections := [(unnamedSection, [])] }
          unnamedSection = some [] := by
        simp [entries?, hdefault.symm, Table.find?]
      refine ⟨some unnamedSection, fun rest => ?_⟩
      rw [List.cons_append, Progress.actAll_headless hitem rfl hheadless, ← List.cons_append, hmade,
        Progress.actAll_entries hitems rfl hfound hdistinct]
      simp [adjust, hdefault.symm, Table.adjust]

theorem Arranged.actAll_defaults (h : s.Arranged d) {sections : Table Text Entries}
    {current : Option Text} {items : List Item}
    (hitems : items.map Item.statement =
      (if s.defaults.isEmpty then [] else [(s.defaultName, s.defaults)]).flatMap
        fun part => .header part.1 :: part.2.map Statement.ofEntry) :
    ∃ current', ∀ rest,
      Progress.actAll d source (items ++ rest)
          ⟨⟨d.defaultSection, [], sections⟩, current, []⟩ =
        Progress.actAll d source rest ⟨⟨d.defaultSection, s.defaults, sections⟩, current', []⟩ := by
  by_cases hempty : s.defaults = []
  · obtain rfl : items = [] := by simpa [hempty] using hitems
    exact ⟨current, fun rest => by rw [hempty, List.nil_append]⟩
  · have hitems' : items.map Item.statement =
        .header d.defaultSection :: s.defaults.map Statement.ofEntry := by
      simpa [hempty, h.defaultName] using hitems
    obtain ⟨item, items, rfl, hitem, hentries⟩ := List.map_eq_cons_iff.1 hitems'
    have hfound : entries? ⟨d.defaultSection, [], sections⟩ d.defaultSection = some [] := by
      simp [entries?]
    refine ⟨some d.defaultSection, fun rest => ?_⟩
    rw [List.cons_append, Progress.actAll_cons
        (Progress.act_header_default hitem (h.defaults hempty)),
      Progress.actAll_entries hentries rfl hfound (by simpa using h.wellFormed.2.1)]
    simp [adjust]

theorem Arranged.actAll_statements (source : Text) (h : s.Arranged d)
    (hdefault : d.defaultSection ≠ unnamedSection) {items : List Item}
    (hitems : items.map Item.statement = s.statements) :
    ∃ current,
      Progress.actAll d source items { store := { defaultName := d.defaultSection } } =
        (⟨s, current, []⟩, .ok ()) := by
  obtain ⟨named, hsections, hheaded⟩ := h.exists_split hdefault
  rw [statements, hheaded, List.flatMap_append, List.map_eq_append_iff] at hitems
  obtain ⟨front, items, rfl, hfront, hitems⟩ := hitems
  obtain ⟨middle, back, rfl, hmiddle, hback⟩ := List.map_eq_append_iff.1 hitems
  obtain ⟨current, hunnamed⟩ := h.actAll_unnamed hdefault hfront
  obtain ⟨current', hdefaults⟩ := h.actAll_defaults hmiddle
  have hparts : ∀ part ∈ named,
      part.1 ≠ [] ∧ part.1 ≠ d.defaultSection ∧ Table.Distinct part.2 := by
    intro part hpart
    have hmem : part ∈ s.sections := by
      rw [hsections]
      exact List.mem_append_right _ hpart
    obtain ⟨hne, hdef⟩ := h.named part.1 (List.mem_map_of_mem hmem)
    exact ⟨hne, hdef, h.wellFormed.2.2 part hmem⟩
  have hdistinct := h.wellFormed.1
  rw [hsections] at hdistinct
  obtain ⟨last, hlast⟩ := Progress.actAll_sections source hback
    (p := ⟨⟨d.defaultSection, s.defaults, _⟩, current', []⟩) rfl hparts hdistinct
  refine ⟨last, ?_⟩
  rw [hunnamed, hdefaults, hlast, ← hsections, ← h.defaultName]

theorem Arranged.mapValues (h : s.Arranged d) (f : Option Text → Option Text) :
    (s.mapValues f).Arranged d := by
  have hnil : ∀ {content : Entries}, content.mapValues f = [] → content = [] :=
    List.map_eq_nil_iff.1
  refine ⟨h.defaultName, h.wellFormed.mapValues f, fun hne => h.defaults (mt ?_ hne), ?_, ?_⟩
  · intro hdefaults
    rw [Store.mapValues, hdefaults, Table.mapValues_nil]
  · rw [sectionNames_mapValues]
    exact h.named
  · intro content hcontent
    rw [entries?_mapValues] at hcontent
    obtain ⟨before, hbefore, rfl⟩ := Option.map_eq_some_iff.1 hcontent
    obtain ⟨hheadless, hne, hhead⟩ := h.unnamed before hbefore
    refine ⟨hheadless, mt hnil hne, ?_⟩
    obtain ⟨rest, hrest⟩ := List.head?_eq_some_iff.1 hhead
    rw [Store.mapValues, hrest, Table.mapValues_cons, List.head?_cons]

/-- What is written of an arranged store is read as what its lines say. -/
theorem Arranged.exists_read_mapValues {f : Option Text → Option Text} (h : s.Arranged d)
    (hreadAs : s.ReadAs d spaced f) (hdefault : d.defaultSection ≠ unnamedSection)
    (hblank : d.blankLinesInValues = true) :
    ∃ text, s.render d spaced = .ok text ∧
      ∀ source, ({ defaultName := d.defaultSection } : Store).read d source text =
        (s.mapValues f, .ok ()) := by
  obtain ⟨lines, hrender, hspells⟩ :=
    hreadAs.exists_render fun content hcontent => (h.unnamed content hcontent).2.1
  refine ⟨unlines lines, hrender, fun source => ?_⟩
  obtain ⟨current, hall⟩ :=
    (h.mapValues f).actAll_statements source hdefault hspells.statements_eq
  rw [Reader.read_eq_conclude, lines_unlines hspells.oneLine]
  have hread := Progress.conclude_feedAll source hblank 1 lines _
    (Progress.settled_start (s := { defaultName := d.defaultSection }) rfl)
  rw [hall] at hread
  exact hread

/-- What is written of an arranged and legible store reads back to it. -/
theorem Arranged.exists_read (h : s.Arranged d) (hlegible : s.Legible d spaced)
    (hdefault : d.defaultSection ≠ unnamedSection) (hblank : d.blankLinesInValues = true) :
    ∃ text, s.render d spaced = .ok text ∧
      ∀ source, ({ defaultName := d.defaultSection } : Store).read d source text = (s, .ok ()) := by
  simpa using h.exists_read_mapValues hlegible hdefault hblank

end Store

end Ini
