import Ini.Proofs.Confined
import Ini.Proofs.Rejected
import Mathlib.Data.List.Nodup

/-!
# Blocks of lines under their headers

A block is a header and what stands under it. Since it concerns one section, of a list
of blocks each section sees its own only, and a fault in a list of blocks is a fault in
those of one section (`exists_absorb?_filter`, `exists_absorb?_filter_eq_none`). As long
as the blocks of each section stay in their order, it does not matter how those of
different sections lie between each other.
-/

namespace Ini

/-- A header of some name and the lines under it. -/
structure Block (d : Dialect) where
  name : Text
  head : Text
  body : List Text
  name_ne_nil : name ≠ []
  unindented : head.indented = false
  header : Statement.ofCleaned d (Line.clean d head) = .header name
  bodied : ∀ raw ∈ body, (Statement.ofCleaned d (Line.clean d raw)).isHeader = false

namespace Block

variable {d : Dialect} {s t : Store}

/-- The header and what stands under it. -/
def lines (b : Block d) : List Text := b.head :: b.body

theorem isHeader (b : Block d) : Line.IsHeader d b.head := by
  refine ⟨b.unindented, ?_⟩
  rw [b.header]
  rfl

theorem feed_head (b : Block d) (place : Position) (s : Store) :
    Reader.feed d place b.head { store := s } =
      Reader.enter d place b.head b.name { store := s } :=
  Reader.feed_header (Reader.exists_header b.isHeader).1 b.header place { store := s }

/-- A block does to its section what it does to it anywhere, fault included. -/
theorem readLines_agree (b : Block d) (hs : s.AgreeOn b.name t) (source : Text) :
    (s.readLines d source b.lines).2 = (t.readLines d source b.lines).2 ∧
      (s.readLines d source b.lines).1.AgreeOn b.name (t.readLines d source b.lines).1 := by
  have hstarted := Reader.started d ⟨source, 1⟩ b.head (.header b.name) { store := s }
  obtain ⟨u, henter, hu⟩ : Reader.Abreast b.name
      (Reader.enter d ⟨source, 1⟩ b.head b.name { store := s })
      (Reader.enter d ⟨source, 1⟩ b.head b.name { store := t }) :=
    Reader.abreast_enter hs ⟨source, 1⟩ b.head
  rw [Store.readLines_eq_conclude, Store.readLines_eq_conclude, lines, Reader.feedAll,
    Reader.feedAll, b.feed_head, b.feed_head, henter]
  rw [Reader.start] at hstarted
  generalize Reader.enter d ⟨source, 1⟩ b.head b.name { store := s } = result at hstarted hu
  obtain ⟨r, outcome⟩ := result
  cases outcome with
  | ok =>
      have hr := hstarted.standsIn_of_header b.name_ne_nil rfl
      exact (hr.feedAll b.bodied).conclude_of_abreast (hr.abreast_feedAll b.bodied hu)
  | error fault => exact ⟨rfl, hu⟩

/-- A block leaves the other sections as they are. -/
theorem readLines_frame (b : Block d) {other : Text} (hne : other ≠ b.name) (source : Text)
    (s : Store) : s.AgreeOn other (s.readLines d source b.lines).1 := by
  have hstarted := Reader.started d ⟨source, 1⟩ b.head (.header b.name) { store := s }
  rw [Store.readLines_eq_conclude, lines, Reader.feedAll, b.feed_head]
  rw [Reader.start] at hstarted
  generalize Reader.enter d ⟨source, 1⟩ b.head b.name { store := s } = result at hstarted
  obtain ⟨r, outcome⟩ := result
  have hhead := hstarted.agreeOn_of_header hne
  cases outcome with
  | ok =>
      have hr := hstarted.standsIn_of_header b.name_ne_nil rfl
      refine (hr.feedAll b.bodied).agreeOn_conclude ?_ hne
      exact hhead.trans (hr.agreeOn_feedAll b.bodied hne)
  | error fault => exact hhead

theorem isHeader_of_head?_flatMap (blocks : List (Block d)) :
    ∀ raw ∈ (blocks.flatMap lines).head?, Line.IsHeader d raw := by
  cases blocks with
  | nil => simp
  | cons b rest =>
      intro raw hraw
      obtain rfl : b.head = raw := by simpa [lines] using hraw
      exact b.isHeader

/-- The malformed lines of blocks are those of each. -/
theorem rejected_flatMap (blocks : List (Block d)) :
    Line.rejected d false (blocks.flatMap lines) =
      blocks.flatMap fun b => Line.rejected d false b.lines := by
  induction blocks with
  | nil => rfl
  | cons b rest ih =>
      rw [List.flatMap_cons, Line.rejected_append (isHeader_of_head?_flatMap rest), ih,
        List.flatMap_cons]

end Block

namespace Store

variable {d : Dialect} {source : Text} {s t u : Store}

/-- The store that lines leave, unless a fault breaks the reading off. -/
def absorb? (d : Dialect) (source : Text) (lines : List Text) (s : Store) : Option Store :=
  (Reader.reported? (s.readLines d source lines).2).map fun _ => (s.readLines d source lines).1

theorem absorb?_of_isSome {lines : List Text}
    (h : (Reader.reported? (s.readLines d source lines).2).isSome) :
    s.absorb? d source lines = some (s.readLines d source lines).1 := by
  obtain ⟨reported, hreported⟩ := Option.isSome_iff_exists.1 h
  rw [absorb?, hreported, Option.map_some]

theorem absorb?_append {second : List Text} (h : ∀ raw ∈ second.head?, Line.IsHeader d raw)
    (source : Text) (first : List Text) (s : Store) :
    s.absorb? d source (first ++ second) =
      (s.absorb? d source first).bind (absorb? d source second) := by
  unfold absorb?
  rw [readLines_append h, Reader.andThen]
  cases hfirst : Reader.reported? (s.readLines d source first).2 with
  | none => simp [hfirst]
  | some before =>
      simp only [Option.map_some, Option.bind_some]
      generalize readLines d source second (s.readLines d source first).1 = result
      cases hsecond : Reader.reported? result.2 with
      | none => simp [Reader.reported?_mapError_shift hsecond]
      | some after => simp [Reader.reported?_report]

variable {name : Text} {b : Block d}

/-- A block is absorbed into both of two stores that agree on its section, or into
neither. -/
theorem AgreeOn.absorb? (hs : s.AgreeOn b.name t) (source : Text) :
    (s.absorb? d source b.lines = none ∧ t.absorb? d source b.lines = none) ∨
      ∃ u v, s.absorb? d source b.lines = some u ∧ t.absorb? d source b.lines = some v ∧
        u.AgreeOn b.name v := by
  obtain ⟨houtcome, hstore⟩ := b.readLines_agree hs source
  unfold Store.absorb?
  rw [← houtcome]
  cases Reader.reported? (s.readLines d source b.lines).2 with
  | none => exact .inl ⟨rfl, rfl⟩
  | some => exact .inr ⟨_, _, rfl, rfl, hstore⟩

theorem agreeOn_of_absorb? (h : s.absorb? d source b.lines = some u) (hne : name ≠ b.name) :
    s.AgreeOn name u := by
  obtain ⟨reported, -, rfl⟩ := Option.map_eq_some_iff.1 h
  exact b.readLines_frame hne source s

theorem absorb?_flatMap_cons (source : Text) (b : Block d) (rest : List (Block d)) (s : Store) :
    s.absorb? d source ((b :: rest).flatMap Block.lines) =
      (s.absorb? d source b.lines).bind (absorb? d source (rest.flatMap Block.lines)) := by
  rw [List.flatMap_cons, absorb?_append (Block.isHeader_of_head?_flatMap rest)]

/-- A block that is absorbed into a store is absorbed into one that agrees with it
under a name, if it is of that name, and does not matter otherwise. -/
theorem AgreeOn.exists_absorb?_filter_cons (hs : s.AgreeOn name t)
    (hu : s.absorb? d source b.lines = some u) :
    ∃ v, u.AgreeOn name v ∧ ∀ rest : List (Block d),
      t.absorb? d source (((b :: rest).filter (·.name = name)).flatMap Block.lines) =
        v.absorb? d source ((rest.filter (·.name = name)).flatMap Block.lines) := by
  by_cases hname : b.name = name
  · subst hname
    obtain ⟨hnone, -⟩ | ⟨u', v, hu', hv, hagree⟩ := hs.absorb? source
    · rw [hnone] at hu
      cases hu
    · rw [hu] at hu'
      cases hu'
      refine ⟨v, hagree, fun rest => ?_⟩
      rw [List.filter_cons_of_pos (by simp), absorb?_flatMap_cons, hv, Option.bind_some]
  · refine ⟨t, (agreeOn_of_absorb? hu (Ne.symm hname)).symm.trans hs, fun rest => ?_⟩
    rw [List.filter_cons_of_neg (by simpa using hname)]

/-- Blocks of other sections do not matter to a section: what is under a name behind
all blocks is there behind those of that name. -/
theorem AgreeOn.exists_absorb?_filter (hs : s.AgreeOn name t) (blocks : List (Block d))
    (h : s.absorb? d source (blocks.flatMap Block.lines) = some u) :
    ∃ v, t.absorb? d source ((blocks.filter (·.name = name)).flatMap Block.lines) = some v ∧
      u.AgreeOn name v := by
  induction blocks generalizing s t with
  | nil =>
      cases h
      exact ⟨t, rfl, hs⟩
  | cons b rest ih =>
      rw [absorb?_flatMap_cons, Option.bind_eq_some_iff] at h
      obtain ⟨s', hs', hrest⟩ := h
      obtain ⟨t', ht', hfilter⟩ := hs.exists_absorb?_filter_cons hs'
      rw [hfilter]
      exact ih ht' hrest

/-- If a fault breaks the reading of blocks off, then already those of one section
have it. -/
theorem exists_absorb?_filter_eq_none (blocks : List (Block d))
    (h : s.absorb? d source (blocks.flatMap Block.lines) = none) :
    ∃ name, ∀ t, s.AgreeOn name t →
      t.absorb? d source ((blocks.filter (·.name = name)).flatMap Block.lines) = none := by
  induction blocks generalizing s with
  | nil => cases h
  | cons b rest ih =>
      rw [absorb?_flatMap_cons] at h
      cases hs' : s.absorb? d source b.lines with
      | none =>
          refine ⟨b.name, fun t hs => ?_⟩
          obtain ⟨-, hnone⟩ | ⟨_, _, hsome, -⟩ := hs.absorb? source
          · rw [List.filter_cons_of_pos (by simp), absorb?_flatMap_cons, hnone]
            rfl
          · rw [hs'] at hsome
            cases hsome
      | some s' =>
          rw [hs'] at h
          obtain ⟨name, hname⟩ := ih h
          refine ⟨name, fun t hs => ?_⟩
          obtain ⟨t', ht', hfilter⟩ := hs.exists_absorb?_filter_cons hs'
          rw [hfilter]
          exact hname t' ht'

end Store

/-! ## New sections -/

namespace Store

variable {s t u v : Store}

/-- New names stand behind those of `s`, none of them twice. -/
def Gained (s t : Store) : Prop :=
  ∃ added : List Text, t.sectionNames = s.sectionNames ++ added ∧ added.Nodup ∧
    ∀ name ∈ added, name ∉ s.sectionNames

/-- Two stores that `s` may have become, of which one has the new sections in another
order. -/
structure Alike (s u v : Store) : Prop where
  defaults : u.defaults = v.defaults
  sections : ∀ name, u.sections.find? name = v.sections.find? name
  names : ∃ added added' : List Text, u.sectionNames = s.sectionNames ++ added ∧
    v.sectionNames = s.sectionNames ++ added' ∧ added.Perm added'

theorem Gained.refl (s : Store) : s.Gained s := ⟨[], by simp⟩

theorem Gained.adjust (h : s.Gained t) (name : Text) (f : Entries → Entries) :
    s.Gained (t.adjust name f) := by
  unfold Gained
  rw [sectionNames_adjust]
  exact h

theorem Gained.insertSection (h : s.Gained t) (name : Text) : s.Gained (t.insertSection name) := by
  obtain ⟨added, hnames, hnodup, hnew⟩ := h
  unfold Gained
  rw [sectionNames_insertSection]
  split
  · exact ⟨added, hnames, hnodup, hnew⟩
  · next hname =>
      rw [hnames, List.mem_append, not_or] at hname
      refine ⟨added ++ [name], ?_, ?_, ?_⟩
      · rw [hnames, List.append_assoc]
      · exact hnodup.append (List.nodup_singleton name) (by simpa using hname.2)
      · intro other hother
        rcases List.mem_append.1 hother with hmem | hmem
        · exact hnew other hmem
        · exact List.mem_singleton.1 hmem ▸ hname.1

theorem Gained.alike (hu : s.Gained u) (hv : s.Gained v) (h : ∀ name, u.AgreeOn name v) :
    s.Alike u v := by
  refine ⟨(h u.defaultName).defaults rfl, fun name => (h name).sections, ?_⟩
  obtain ⟨added, hadded, hnodup, hnew⟩ := hu
  obtain ⟨added', hadded', hnodup', hnew'⟩ := hv
  refine ⟨added, added', hadded, hadded', (List.perm_ext_iff_of_nodup hnodup hnodup').2 ?_⟩
  intro name
  have hmem : name ∈ u.sectionNames ↔ name ∈ v.sectionNames := by
    rw [← hasSection_iff_mem, ← hasSection_iff_mem, (h name).hasSection_eq]
  rw [hadded, hadded', List.mem_append, List.mem_append] at hmem
  constructor
  · intro hname
    exact (hmem.1 (.inr hname)).resolve_left (hnew name hname)
  · intro hname
    exact (hmem.2 (.inr hname)).resolve_left (hnew' name hname)

end Store

namespace Reader

variable {d : Dialect} {source raw name : Text} {place : Position} {statement : Statement}
  {r q : Reader} {result : Reader × Except Fault Unit} {s : Store}

theorem gained_flush (h : s.Gained r.store) : s.Gained r.flush.store := by
  unfold flush
  split
  · exact h
  · exact h.adjust _ _

theorem Located.gained (h : Located d r name q) (hr : s.Gained r.store) : s.Gained q.store := by
  cases h with
  | here => exact hr
  | made => exact hr.insertSection unnamedSection

theorem Started.gained (h : Started d place raw r statement result) (hr : s.Gained r.store) :
    s.Gained result.1.store := by
  cases h with
  | nameless | defaults | repeated | homeless => exact hr
  | opened => exact hr.insertSection _
  | assigned hq => exact (hq.gained hr).adjust _ _
  | duplicate hq | lost hq | malformed hq => exact hq.gained hr

theorem Fed.gained (h : Fed d place raw r result) (hr : s.Gained r.store) :
    s.Gained result.1.store := by
  cases h with
  | idle | gap | row => exact hr
  | started hclean hraw hstarted => exact hstarted.gained (gained_flush hr)

end Reader

theorem Store.gained_readLines (d : Dialect) (source : Text) (lines : List Text) (s : Store) :
    s.Gained (s.readLines d source lines).1 := by
  have hall := Reader.feedAll_keeps (P := fun q => s.Gained q.store)
    (fun place raw q hq => (Reader.fed d place raw q).gained hq) source lines 1
    (r := { store := s }) (.refl s)
  rw [readLines_eq_conclude]
  generalize Reader.feedAll d source 1 lines { store := s } = result at hall
  obtain ⟨q, outcome⟩ := result
  cases outcome with
  | ok => exact Reader.gained_flush hall
  | error => exact hall

/-! ## Rearrangements -/

/-- The same blocks, those of each section in the same order. -/
def Block.Rearranges {d : Dialect} (blocks others : List (Block d)) : Prop :=
  blocks.Perm others ∧
    ∀ name, blocks.filter (·.name = name) = others.filter (·.name = name)

theorem Block.Rearranges.symm {d : Dialect} {blocks others : List (Block d)}
    (h : Rearranges blocks others) : Rearranges others blocks :=
  ⟨h.1.symm, fun name => (h.2 name).symm⟩

theorem Block.Rearranges.swap {d : Dialect} {b b' : Block d} (h : b.name ≠ b'.name)
    (rest : List (Block d)) : Rearranges (b :: b' :: rest) (b' :: b :: rest) := by
  refine ⟨.swap b' b rest, fun name => ?_⟩
  by_cases hname : b.name = name
  · have hother : b'.name ≠ name := fun hb' => h (hname.trans hb'.symm)
    simp [hname, hother]
  · simp [List.filter_cons, hname]

namespace Store

variable {d : Dialect} {blocks others : List (Block d)}

theorem absorb?_of_rearranges (h : Block.Rearranges blocks others) {source : Text} {s u : Store}
    (hu : s.absorb? d source (blocks.flatMap Block.lines) = some u) :
    ∃ v, s.absorb? d source (others.flatMap Block.lines) = some v ∧ ∀ name, u.AgreeOn name v := by
  cases hv : s.absorb? d source (others.flatMap Block.lines) with
  | none =>
      obtain ⟨name, hname⟩ := exists_absorb?_filter_eq_none others hv
      obtain ⟨w, hw, -⟩ := (AgreeOn.refl name s).exists_absorb?_filter blocks hu
      rw [h.2, hname s (.refl name s)] at hw
      cases hw
  | some v =>
      refine ⟨v, rfl, fun name => ?_⟩
      obtain ⟨w, hw, huw⟩ := (AgreeOn.refl name s).exists_absorb?_filter blocks hu
      obtain ⟨w', hw', hvw⟩ := (AgreeOn.refl name s).exists_absorb?_filter others hv
      rw [h.2, hw'] at hw
      cases hw
      exact huw.trans hvw.symm

theorem isSome_reported?_of_rearranges (h : Block.Rearranges blocks others) {source : Text}
    {s : Store}
    (hs : (Reader.reported? (s.readLines d source (blocks.flatMap Block.lines)).2).isSome) :
    (Reader.reported? (s.readLines d source (others.flatMap Block.lines)).2).isSome := by
  obtain ⟨v, hv, -⟩ := absorb?_of_rearranges h (absorb?_of_isSome hs)
  obtain ⟨reported, hreported, -⟩ := Option.map_eq_some_iff.1 hv
  exact Option.isSome_of_eq_some hreported

theorem rejected_of_rearranges (h : Block.Rearranges blocks others) :
    (Line.rejected d false (blocks.flatMap Block.lines)).Perm
      (Line.rejected d false (others.flatMap Block.lines)) := by
  rw [Block.rejected_flatMap, Block.rejected_flatMap]
  exact h.1.flatMap_right _

/-- Blocks may be rearranged as long as those of each section stay in their order. No
fault breaks the reading off in one order that does not in the other, and if none does,
the same lines are malformed, and the stores are alike but for the order of the new
sections. -/
theorem readLines_of_rearranges (h : Block.Rearranges blocks others) (source : Text) (s : Store) :
    ((Reader.reported? (s.readLines d source (blocks.flatMap Block.lines)).2).isSome ↔
      (Reader.reported? (s.readLines d source (others.flatMap Block.lines)).2).isSome) ∧
    ∀ reported reported',
      Reader.reported? (s.readLines d source (blocks.flatMap Block.lines)).2 = some reported →
      Reader.reported? (s.readLines d source (others.flatMap Block.lines)).2 = some reported' →
      (reported.map Prod.snd).Perm (reported'.map Prod.snd) ∧
        s.Alike (s.readLines d source (blocks.flatMap Block.lines)).1
          (s.readLines d source (others.flatMap Block.lines)).1 := by
  refine ⟨?_, fun reported reported' hleft hright => ⟨?_, ?_⟩⟩
  · constructor
    · exact isSome_reported?_of_rearranges h
    · exact isSome_reported?_of_rearranges h.symm
  · rw [rejected_of_reported? hleft, rejected_of_reported? hright]
    exact rejected_of_rearranges h
  · have hu := absorb?_of_isSome (Option.isSome_of_eq_some hleft)
    have hv := absorb?_of_isSome (Option.isSome_of_eq_some hright)
    obtain ⟨v, hv', hagree⟩ := absorb?_of_rearranges h hu
    obtain rfl := Option.some.inj (hv.symm.trans hv')
    exact (gained_readLines d source _ s).alike (gained_readLines d source _ s) hagree

/-- The standard dialect, but repetitions are no faults. -/
def lenient : Dialect := { Dialect.standard with strict := false }

/-- A block whose last value is still open at its end. -/
def openBlock : Block lenient where
  name := "a".toList
  head := "[a]".toList
  body := ["k = 1".toList, "\t2".toList]
  name_ne_nil := by decide
  unindented := rfl
  header := rfl
  bodied := by decide

/-- A block that begins with a malformed line. -/
def spoiltBlock : Block lenient where
  name := "b".toList
  head := "[b]".toList
  body := ["?".toList, "k = 0".toList]
  name_ne_nil := by decide
  unindented := rfl
  header := rfl
  bodied := by decide

/-- A second block of the section `a`. -/
def laterBlock : Block lenient where
  name := "a".toList
  head := "[a]".toList
  body := ["l = 3".toList]
  name_ne_nil := by decide
  unindented := rfl
  header := rfl
  bodied := by decide

theorem readLines_of_rearranges_swapped :
    Block.Rearranges [openBlock, spoiltBlock, laterBlock] [spoiltBlock, openBlock, laterBlock] ∧
      Alike ⟨defaultSectionName, [], []⟩
        ⟨defaultSectionName, [],
          [("a".toList, [("k".toList, some "1\n2".toList), ("l".toList, some "3".toList)]),
            ("b".toList, [("k".toList, some "0".toList)])]⟩
        ⟨defaultSectionName, [],
          [("b".toList, [("k".toList, some "0".toList)]),
            ("a".toList, [("k".toList, some "1\n2".toList), ("l".toList, some "3".toList)])]⟩ := by
  have h : Block.Rearranges [openBlock, spoiltBlock, laterBlock]
      [spoiltBlock, openBlock, laterBlock] := .swap (by decide) [laterBlock]
  exact ⟨h, ((readLines_of_rearranges h [] ⟨defaultSectionName, [], []⟩).2
    [(5, "?".toList)] [(2, "?".toList)] rfl rfl).2⟩

end Store

end Ini
