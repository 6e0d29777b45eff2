import Ini.Proofs.Taken

/-!
# What was read can be written

A store that a reading left is written back, and what is written reads back to
it. There is one way to fail. A line may begin with a bracket without being a
header, and then its key does too; the writer refuses such a key if a delimiter
follows, because the line could end in a bracket and be one.

`Refuses` follows this single fault through the writer, from an entry to the
whole store, beside the condition that brings it about. Where that condition
does not hold, a store that a reading left is arranged and legible.
-/

namespace Ini

open Text

/-- An entry with a value whose key opens a bracket. -/
def Entry.Bracketed (pair : Text × Option Text) : Prop :=
  pair.2.isSome = true ∧ pair.1.head? = some '['

instance {pair : Text × Option Text} : Decidable (Entry.Bracketed pair) :=
  inferInstanceAs (Decidable (_ ∧ _))

/-- Some entry with a value has a key that opens a bracket. -/
def Store.Bracketed (s : Store) : Prop :=
  ∃ part ∈ s.view, ∃ pair ∈ part.2, Entry.Bracketed pair

instance {s : Store} : Decidable s.Bracketed :=
  inferInstanceAs (Decidable (∃ part ∈ s.view, ∃ pair ∈ part.2, Entry.Bracketed pair))

namespace Render

/-- A writing that fails over a bracket if `p` holds, and else does not fail. -/
inductive Refuses (p : Prop) : Except Fault Text → Prop
  | written (h : ¬p) (text : Text) : Refuses p (.ok text)
  | refused (h : p) (key : Text) : Refuses p (.error (.unwritableKey key .opensHeader))

namespace Refuses

variable {p q : Prop} {front back : Except Fault Text}

theorem congr (h : Refuses p front) (hpq : p ↔ q) : Refuses q front := propext hpq ▸ h

theorem map (h : Refuses p front) (f : Text → Text) : Refuses p (do return f (← front)) := by
  cases h with
  | written hp text => exact .written hp (f text)
  | refused hp key => exact .refused hp key

/-- Of two writings the first to fail counts. -/
theorem append (h : Refuses p front) (h' : Refuses q back) :
    Refuses (p ∨ q) (do return (← front) ++ (← back)) := by
  cases h with
  | written hp text =>
      cases h' with
      | written hq rest => exact .written (fun hpq => hpq.elim hp hq) (text ++ rest)
      | refused hq key => exact .refused (.inr hq) key
  | refused hp key => exact .refused (.inl hp) key

theorem exists_error_iff (h : Refuses p front) :
    (∃ key, front = .error (.unwritableKey key .opensHeader)) ↔ p := by
  cases h with
  | written hp text => simp [hp]
  | refused hp key => exact ⟨fun _ => hp, fun _ => ⟨key, rfl⟩⟩

end Refuses

variable {d : Dialect}

theorem refuses_entry (spaced : Bool) {key : Text} {value : Option Text} (h : Entry.Sound d key value) :
    Refuses (Entry.Bracketed (key, value)) (entry d spaced key value) := by
  cases value with
  | none =>
      obtain ⟨hbare, -⟩ := h.bare rfl
      have hentry : entry d spaced key none = .ok (key ++ ['\n']) := by simp [entry, hbare]
      rw [hentry]
      exact .written (by simp [Entry.Bracketed]) _
  | some text =>
      by_cases hhead : key.head? = some '['
      · have hentry : entry d spaced key (some text) =
            .error (.unwritableKey key .opensHeader) := by
          simp [entry, keyFlaw?, hhead]
        rw [hentry]
        exact .refused ⟨rfl, hhead⟩ key
      · have hflaw := Dialect.Marked.keyFlaw?_eq_none h.keyFits hhead
        have hentry : entry d spaced key (some text) =
            .ok (key ++ delimiter d spaced ++ Render.value text ++ ['\n']) := by
          simp [entry, hflaw]
        rw [hentry]
        exact .written (fun hp => hhead hp.2) _

theorem refuses_entries (spaced : Bool) {content : Entries}
    (h : ∀ pair ∈ content, Entry.Sound d pair.1 pair.2) :
    Refuses (∃ pair ∈ content, Entry.Bracketed pair) (entries d spaced content) := by
  induction content with
  | nil => exact .written (by simp) []
  | cons pair rest ih =>
      have hentry := refuses_entry spaced (h pair (by simp))
      have hrest := ih fun other hother => h other (by simp [hother])
      exact (hentry.append hrest).congr (by simp)

theorem refuses_block (spaced : Bool) (heading : Text) {content : Entries}
    (h : ∀ pair ∈ content, Entry.Sound d pair.1 pair.2) :
    Refuses (∃ pair ∈ content, Entry.Bracketed pair) (block d spaced heading content) :=
  (refuses_entries spaced h).map fun text => heading ++ text ++ ['\n']

theorem refuses_blocks (spaced : Bool) {sections : Table Text Entries}
    (h : ∀ part ∈ sections, ∀ pair ∈ part.2, Entry.Sound d pair.1 pair.2) :
    Refuses (∃ part ∈ sections, ∃ pair ∈ part.2, Entry.Bracketed pair)
      (blocks d spaced sections) := by
  induction sections with
  | nil => exact .written (by simp) []
  | cons part rest ih =>
      have hblock := refuses_block spaced (header part.1) (h part (by simp))
      have hrest := ih fun other hother => h other (by simp [hother])
      exact (hblock.append hrest).congr (by simp)

end Render

namespace Store

variable {d : Dialect} {spaced : Bool} {s : Store}

/-- What is written is what there is to see: without a header, or under one. -/
theorem mem_view_iff (h : s.WellFormed) (hname : s.defaultName ≠ unnamedSection)
    {part : Text × Entries} :
    part ∈ s.view ↔
      (∃ content, s.entries? unnamedSection = some content ∧ part = (unnamedSection, content)) ∨
        part ∈ s.headed := by
  constructor
  · intro hpart
    rcases List.mem_append.1 hpart with hmem | hmem
    · exact .inr (List.mem_append_left _ hmem)
    · by_cases hunnamed : part.1 = unnamedSection
      · have hfind : s.sections.find? unnamedSection = some part.2 :=
          Table.find?_eq_some_of_mem h.1 (hunnamed ▸ hmem)
        refine .inl ⟨part.2, ?_, by rw [← hunnamed]⟩
        rw [entries?, if_neg hname.symm, hfind]
      · exact .inr (List.mem_append_right _ (List.mem_filter.2 ⟨hmem, by simpa using hunnamed⟩))
  · intro hpart
    rcases hpart with ⟨content, hcontent, rfl⟩ | hpart
    · rw [entries?, if_neg hname.symm] at hcontent
      exact List.mem_append_right _ (Table.mem_of_find?_eq_some hcontent)
    · exact mem_view_of_mem_headed hpart

theorem Sound.view (h : s.Sound d) : ∀ part ∈ s.view, ∀ pair ∈ part.2, Entry.Sound d pair.1 pair.2 := by
  intro part hpart
  rcases List.mem_append.1 hpart with hmem | hmem
  · split at hmem
    · cases hmem
    · obtain rfl := List.mem_singleton.1 hmem
      exact h.entries (if_pos rfl)
  · have hname : part.1 ≠ s.defaultName := h.defaultName ▸
      (h.named part.1 (List.mem_map_of_mem hmem)).1
    have hfound : s.entries? part.1 = some part.2 := by
      rw [entries?, if_neg hname]
      exact Table.find?_eq_some_of_mem h.wellFormed.1 hmem
    exact h.entries hfound

theorem Sound.refuses (h : s.Sound d) (hdefault : d.defaultSection ≠ unnamedSection)
    (spaced : Bool) : Render.Refuses s.Bracketed (s.render d spaced) := by
  have hname : s.defaultName ≠ unnamedSection := h.defaultName ▸ hdefault
  have hunnamed : Render.Refuses
      (∃ content, s.entries? unnamedSection = some content ∧ ∃ pair ∈ content, Entry.Bracketed pair)
      (s.renderUnnamed d spaced) := by
    unfold renderUnnamed
    cases hcontent : s.entries? unnamedSection with
    | none => exact .written (by simp) []
    | some content => exact (Render.refuses_block spaced [] (h.entries hcontent)).congr (by simp)
  have hheaded := Render.refuses_blocks spaced fun part hpart =>
    h.view part (mem_view_of_mem_headed hpart)
  refine (hunnamed.append hheaded).congr ?_
  constructor
  · intro h
    rcases h with ⟨content, hcontent, hpair⟩ | ⟨part, hpart, hpair⟩
    · exact ⟨_, (mem_view_iff h.wellFormed hname).2 (.inl ⟨content, hcontent, rfl⟩), hpair⟩
    · exact ⟨part, mem_view_of_mem_headed hpart, hpair⟩
  · intro h
    obtain ⟨part, hpart, hpair⟩ := h
    rcases (mem_view_iff h.wellFormed hname).1 hpart with ⟨content, hcontent, rfl⟩ | hmem
    · exact .inl ⟨content, hcontent, hpair⟩
    · exact .inr ⟨part, hmem, hpair⟩

theorem Sound.heads (h : s.Sound d) {part : Text × Entries} (hpart : part ∈ s.headed) :
    d.Heads part.1 := by
  rcases List.mem_append.1 hpart with hmem | hmem
  · split at hmem
    · cases hmem
    · next hne =>
        obtain rfl := List.mem_singleton.1 hmem
        exact h.defaultName ▸ h.defaults (by simpa using hne)
  · obtain ⟨hin, hunnamed⟩ := List.mem_filter.1 hmem
    exact (h.named part.1 (List.mem_map_of_mem hin)).2.resolve_left (by simpa using hunnamed)

/-- What the lines of a store say that a reading left. -/
theorem Sound.readAs (hd : d.Marked) (h : s.Sound d) (hbracketed : ¬s.Bracketed) (spaced : Bool) :
    s.ReadAs d spaced (Option.map (d.readBack spaced)) := by
  refine readAs_of_view hd (fun part hpart => ?_) ?_
  · have hheads := h.heads hpart
    exact ⟨hheads.bracket, hheads.newline, hheads.quiet⟩
  · intro part hpart pair hpair
    obtain ⟨key, value⟩ := pair
    have hentry := h.view part hpart (key, value) hpair
    cases value with
    | none =>
        obtain ⟨hbare, hheader⟩ := hentry.bare rfl
        exact Entry.readAs_bare hd hentry.keyFits hbare hheader hentry.quietKey spaced
    | some text =>
        have hhead : key.head? ≠ some '[' := fun hhead =>
          hbracketed ⟨part, hpart, (key, some text), hpair, rfl, hhead⟩
        exact Entry.readAs_valued hd hentry.keyFits hhead (hentry.valueFits text rfl)
          hentry.quietKey (hentry.quietValue text rfl) spaced

theorem Sound.legible (hd : d.Plain) (h : s.Sound d) (hbracketed : ¬s.Bracketed) (spaced : Bool) :
    s.Legible d spaced := by
  have hid : Option.map (d.readBack spaced) = id := by
    rw [funext (hd.readBack_eq_self spaced)]
    exact Option.map_id
  have hread := h.readAs hd.marked hbracketed spaced
  rwa [hid] at hread

end Store

/-- What a text without a header for the unnamed section is read as can be
written, unless a key with a value opens a bracket, and what is written reads
back to it. -/
theorem Config.render_read {d : Dialect} (hd : d.Plain) (hfold : d.Unfolded) {source text : Text}
    (hheader : ∀ item ∈ Item.cut d 1 text.lines, item.statement ≠ .header unnamedSection)
    {c : Config} (hread : (Config.empty d).read source text = (c, .ok ())) (spaced : Bool) :
    ((∃ key, c.render spaced = .error (.unwritableKey key .opensHeader)) ↔ c.store.Bracketed) ∧
      (¬c.store.Bracketed → ∃ written, c.render spaced = .ok written ∧
        ∀ other, (Config.empty d).read other written = (c, .ok ())) := by
  obtain ⟨s, hstore, rfl⟩ : ∃ s, ({ defaultName := d.defaultSection } : Store).read d source text =
      (s, .ok ()) ∧ c = ⟨d, s⟩ := by
    obtain ⟨hconfig, houtcome⟩ := Prod.mk.inj hread
    exact ⟨_, Prod.ext rfl houtcome, hconfig.symm⟩
  obtain ⟨hsound, hfilled⟩ := Store.sound_of_read hd hfold hheader hstore
  refine ⟨(hsound.refuses hd.defaultSection spaced).exists_error_iff, fun hbracketed => ?_⟩
  have harranged := hsound.arranged hd.defaultSection hfilled
  obtain ⟨written, hrender, hback⟩ :=
    harranged.exists_read (hsound.legible hd hbracketed spaced) hd.defaultSection hd.blankLines
  refine ⟨written, hrender, fun other => ?_⟩
  simp only [Config.read, Config.empty, hback]

/-- Items that are headers are so on a line of their own. -/
theorem Item.exists_of_mem_cut {d : Dialect} {number : Nat} {lines : List Text} {name : Text} :
    ∀ item ∈ Item.cut d number lines, item.statement = .header name →
      ∃ raw ∈ lines, Statement.ofCleaned d (Line.clean d raw) = .header name := by
  fun_induction Item.cut d number lines with
  | case1 => simp
  | case2 number raw rest hblank ih =>
      intro item hitem hs
      obtain ⟨line, hline, hname⟩ := ih item hitem hs
      exact ⟨line, List.mem_cons_of_mem _ hline, hname⟩
  | case3 number raw rest hblank key first hs run ih =>
      intro item hitem hname
      rcases List.mem_cons.1 hitem with rfl | hmem
      · cases hname
      · obtain ⟨line, hline, hname⟩ := ih item hmem hname
        exact ⟨line, List.mem_cons_of_mem _ ((List.dropWhile_suffix _).subset hline), hname⟩
  | case4 number raw rest hblank hopen ih =>
      intro item hitem hname
      rcases List.mem_cons.1 hitem with rfl | hmem
      · exact ⟨raw, List.mem_cons_self, hname⟩
      · obtain ⟨line, hline, hname⟩ := ih item hmem hname
        exact ⟨line, List.mem_cons_of_mem _ hline, hname⟩

/-- A dialect that puts up with much. -/
def Dialect.loose : Dialect := { bareKeys := true, strict := false, headless := true }

/-- A text in which keys repeat, a bracket stays open and lines end in blanks. -/
def Text.untidy : Text :=
  "Root = 1\n[ A]\n Key = x \n  y\n\n\tz\nOTHER:\n # no\n 2\n\n[DEFAULT]\n[Half\n[ A]\nother = 3".toList

theorem Config.render_read_untidy :
    Dialect.loose.Plain ∧ Dialect.loose.Unfolded ∧
      (∀ item ∈ Item.cut .loose 1 untidy.lines, item.statement ≠ .header unnamedSection) ∧
      ∃ c, (empty .loose).read [] untidy = (c, .ok ()) ∧ ¬c.store.Bracketed ∧
        ∃ written, c.render true = .ok written ∧
          ∀ other, (empty .loose).read other written = (c, .ok ()) := by
  have hheader : ∀ item ∈ Item.cut .loose 1 untidy.lines,
      item.statement ≠ .header unnamedSection := by
    intro item hitem hs
    have hlines : ∀ raw ∈ untidy.lines,
        Statement.ofCleaned .loose (Line.clean .loose raw) ≠ .header unnamedSection := by decide
    obtain ⟨raw, hraw, hname⟩ := Item.exists_of_mem_cut item hitem hs
    exact hlines raw hraw hname
  have hread : (empty .loose).read [] untidy = (((empty .loose).read [] untidy).1, .ok ()) := rfl
  refine ⟨by decide, by decide, hheader, _, hread, by decide, ?_⟩
  exact (render_read (by decide) (by decide) hheader hread true).2 (by decide)

end Ini
