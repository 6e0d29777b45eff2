import Ini.Proofs.Comments
import Ini.Proofs.RoundTrip

/-!
# What a reading can leave

A reading cannot leave just any store. Keys were trimmed and folded and end
where the first delimiter stood; the rows of a value were cleaned; a name stood
between brackets. `Statement.Sound` says so of one statement, and that every
statement of a text is sound takes marks that folding cannot make: a folded key
holds lower-case letters that the line did not have.

`Progress.Sound` carries this through the acting, item by item. Besides the
entries it keeps track of the unnamed section, which only the first entry of a
text can make: it stands first, and it is not left empty. All of this is claimed
only as long as no item was malformed, for a header without a name takes the
acting back to where there is no section to go on with.
-/

namespace Ini

open Text

/-! ## Cleaned lines -/

/-- No mark holds a character that folding could make. -/
def Dialect.Unfolded (d : Dialect) : Prop :=
  ∀ mark ∈ d.delimiters ++ d.commentMarks, mark.any Char.isLower = false

instance {d : Dialect} : Decidable d.Unfolded :=
  inferInstanceAs (Decidable (∀ mark ∈ d.delimiters ++ d.commentMarks, _))

theorem Dialect.Unfolded.isLower_eq_false {d : Dialect} (hfold : d.Unfolded) {c : Char}
    (hc : [c] ∈ d.delimiters ++ d.commentMarks) : c.isLower = false := by
  simpa using hfold [c] hc

/-- What the cleaning of a line can leave. -/
structure Line.Cleaned (d : Dialect) (row : Text) : Prop where
  trim_eq : row.trim = row
  newline : '\n' ∉ row
  comment : ∀ mark ∈ d.commentMarks, ¬mark <+: row
  quiet : Line.Quiet d.inlineMarks true row

/-- An entry that a line, or a line and those behind it, can make. -/
structure Entry.Sound (d : Dialect) (key : Text) (value : Option Text) : Prop where
  keyFits : Entry.KeyFits d key
  bare : value = none → d.bareKeys = true ∧ Statement.headerName? key = none
  valueFits : ∀ text ∈ value, Entry.ValueFits d text
  quietKey : Line.Quiet d.inlineMarks true key
  quietValue : ∀ text ∈ value, Line.Quiet d.inlineMarks false text

/-- A name that a header can give. -/
structure Dialect.Heads (d : Dialect) (name : Text) : Prop where
  ne_nil : name ≠ []
  newline : '\n' ∉ name
  bracket : ['['] ∉ d.commentMarks
  quiet : Line.Quiet d.inlineMarks true (Render.headerLine name)

/-- A statement that a text can make. -/
inductive Statement.Sound (d : Dialect) : Statement → Prop
  | header {name : Text} (h : name = [] ∨ d.Heads name) : Sound d (.header name)
  | entry {key : Text} {value : Option Text} (h : Entry.Sound d key value) :
      Sound d (.entry key value)
  | malformed : Sound d .malformed

namespace Statement

theorem headerName?_eq_some {row name : Text} (h : headerName? row = some name) :
    row = Render.headerLine name := headerName?_eq_some_iff.1 h

/-- Folding makes no brackets. -/
theorem headerName?_fold {row : Text} (h : headerName? row = none) :
    headerName? row.fold = none := by
  have hbracket : ∀ {b c : Char}, c.isLower = false → b.toLower = c → b = c := by
    intro b c hc hlower
    rw [← hlower] at hc ⊢
    exact (toLower_eq_self_of_isLower_eq_false hc).symm
  cases row with
  | nil => rfl
  | cons c rest =>
      by_cases hc : c = '['
      · subst hc
        have hlast : rest.getLast? ≠ some ']' := by
          intro hlast
          simp [headerName?, hlast] at h
        have hfold : (fold rest).getLast? ≠ some ']' := by
          intro hfold
          rw [fold, List.getLast?_map, Option.map_eq_some_iff] at hfold
          obtain ⟨b, hb, hlower⟩ := hfold
          exact hlast (hbracket (by decide) hlower ▸ hb)
        exact if_neg hfold
      · exact Dialect.Marked.headerName?_cons (fun e => hc (hbracket (by decide) e)) _

end Statement

namespace Dialect.Marked

variable {d : Dialect} {raw row key : Text}

theorem cleaned_clean (hd : d.Marked) (hraw : '\n' ∉ raw) : Line.Cleaned d (Line.clean d raw) := by
  refine ⟨Line.trim_clean d raw, ?_, ?_, ?_⟩
  · rw [Line.clean]
    split
    · simp
    · have hfront := Line.foldl_dropInline_isPrefix d.inlineMarks raw
      exact fun hmem => hraw (hfront.subset (mem_of_mem_trim hmem))
  · intro mark hmark
    have hne : mark ≠ [] := by
      rintro rfl
      cases hd.single_commentMarks [] hmark
    exact Line.startsComment_eq_false_iff.1 (Line.startsComment_clean d raw) mark hmark hne
  · rw [Line.clean]
    split
    · exact Line.quiet_nil ..
    · exact (Line.quiet_foldl_dropInline hd.single_inlineMarks raw).trim

/-- The key that a cleaned line begins with, once it is trimmed and folded. -/
theorem keyFits_fold (hd : d.Marked) (hfold : d.Unfolded) (hrow : Line.Cleaned d row)
    {before after : Text} (heq : before ++ after = row) (hfree : ∀ c ∈ before, [c] ∉ d.delimiters)
    (hne : before.trim ≠ []) : Entry.KeyFits d before.trim.fold := by
  refine ⟨?_, fold_fold _, ?_, ?_, ?_, ?_⟩
  · simpa [fold] using hne
  · rw [trim_fold, trim_trim]
  · intro hmem
    have hbefore := mem_of_mem_trim (mem_of_mem_fold hmem (by decide))
    exact hrow.newline (heq ▸ List.mem_append_left _ hbefore)
  · intro mark hmark hpre
    obtain ⟨c, rfl⟩ := exists_eq_singleton hd.single_commentMarks hmark
    have hlower := hfold.isLower_eq_false (List.mem_append_right _ hmark)
    cases before with
    | nil => exact hne rfl
    | cons b rest =>
        -- The line is not indented, so the key begins where the line does.
        have hb : isBlank b = false := (trim_eq_self_iff.1 hrow.trim_eq).1 b (by simp [← heq])
        have htrim : trim (b :: rest) = b :: trimEnd rest := by
          rw [trim, trimStart_cons hb]
          exact trimEnd_append_cons hb [] rest
        rw [htrim, fold_cons, List.cons_prefix_cons] at hpre
        obtain rfl : b = c := by
          rw [hpre.1] at hlower ⊢
          exact (toLower_eq_self_of_isLower_eq_false hlower).symm
        exact hrow.comment [b] hmark ⟨rest ++ after, heq⟩
  · intro mark hmark hinfix
    obtain ⟨c, rfl⟩ := exists_eq_singleton hd.single_delimiters hmark
    have hlower := hfold.isLower_eq_false (List.mem_append_left _ hmark)
    have hmem := mem_of_mem_fold ((List.singleton_infix_iff c _).1 hinfix) hlower
    exact hfree c (mem_of_mem_trim hmem) hmark

theorem sound_ofKey (hd : d.Marked) (hfold : d.Unfolded) (hrow : Line.Cleaned d row)
    {before after : Text} {value : Option Text} (heq : before ++ after = row)
    (hfree : ∀ c ∈ before, [c] ∉ d.delimiters)
    (hbare : value = none → d.bareKeys = true ∧ Statement.headerName? before.trim = none)
    (hvalue : ∀ text ∈ value, '\n' ∉ text ∧ Line.Quiet d.inlineMarks false text) :
    (Statement.ofKey before value).Sound d := by
  unfold Statement.ofKey
  split
  · exact .malformed
  · next hne =>
      have hkey := hd.keyFits_fold hfold hrow heq hfree (by simpa using hne)
      have hquiet : Line.Quiet d.inlineMarks true before := hrow.quiet.of_isPrefix ⟨after, heq⟩
      refine .entry ⟨hkey, fun hnone => ?_, fun text htext => ?_,
        hquiet.trim.fold hd.isLower_inlineMarks, fun text htext => ?_⟩
      · obtain ⟨hbare, hheader⟩ := hbare (Option.map_eq_none_iff.1 hnone)
        exact ⟨hbare, Statement.headerName?_fold hheader⟩
      · obtain ⟨after, hafter, rfl⟩ := Option.map_eq_some_iff.1 htext
        have hnewline : '\n' ∉ after.trim := fun hmem =>
          (hvalue after hafter).1 (mem_of_mem_trim hmem)
        have hrows : Entry.ValueFits d (joinLines [after.trim]) :=
          Entry.valueFits_joinLines ⟨trim_trim after, hnewline⟩ (by simp) (by simp)
        exact hrows
      · obtain ⟨after, hafter, rfl⟩ := Option.map_eq_some_iff.1 htext
        exact (hvalue after hafter).2.trim

theorem sound_ofCleaned (hd : d.Marked) (hfold : d.Unfolded) (hrow : Line.Cleaned d row) :
    (Statement.ofCleaned d row).Sound d := by
  unfold Statement.ofCleaned
  cases hheader : Statement.headerName? row with
  | some name =>
      rw [Statement.headerName?_eq_some hheader] at hrow
      by_cases hname : name = []
      · exact .header (.inl hname)
      · have hnewline : '\n' ∉ name := fun hmem => hrow.newline (by simp [Render.headerLine, hmem])
        have hbracket : ['['] ∉ d.commentMarks := fun hmark =>
          hrow.comment ['['] hmark ⟨name ++ [']'], rfl⟩
        exact .header (.inr ⟨hname, hnewline, hbracket, hrow.quiet⟩)
  | none =>
      cases hcut : cut d.delimiters row with
      | some found =>
          have heq := cut_append hcut
          rw [List.append_assoc] at heq
          refine hd.sound_ofKey hfold hrow heq (fun c hc => not_mem_marks_of_mem_before hcut hc)
            (by simp) ?_
          intro after hafter
          cases hafter
          refine ⟨fun hmem => hrow.newline (by simp [← heq, hmem]), ?_⟩
          obtain ⟨c, hmark⟩ := exists_eq_singleton hd.single_delimiters (mem_of_cut_eq_some hcut)
          have hmem : [c] ∈ d.delimiters := hmark ▸ mem_of_cut_eq_some hcut
          have hquiet := hrow.quiet
          rw [← heq, hmark, List.singleton_append,
            Line.quiet_append_cons (hd.not_mem_inlineMarks_of_delimiter hmem),
            hd.isBlank_delimiter hmem] at hquiet
          exact hquiet.2
      | none =>
          simp only []
          split
          · next hbare =>
              have hfree := (cut_eq_none_iff_of_single hd.single_delimiters).1 hcut
              refine hd.sound_ofKey hfold hrow (List.append_nil row) hfree (fun _ => ⟨hbare, ?_⟩)
                (by simp)
              rw [hrow.trim_eq, hheader]
          · exact .malformed

theorem first_ofCleaned (hrow : Line.Cleaned d row) {first : Text}
    (h : Statement.ofCleaned d row = .entry key (some first)) :
    first.trim = first ∧ '\n' ∉ first := by
  unfold Statement.ofCleaned at h
  split at h
  · cases h
  · split at h
    · next found hcut =>
        unfold Statement.ofKey at h
        split at h
        · cases h
        · cases h
          refine ⟨trim_trim _, fun hmem => hrow.newline ?_⟩
          rw [← cut_append hcut]
          exact List.mem_append_right _ (mem_of_mem_trim hmem)
    · unfold Statement.ofKey at h
      split at h
      · split at h
        · cases h
        · cases h
      · cases h

theorem sound_whole (hd : d.Marked) {first : Text} {run : List Text}
    (h : Entry.Sound d key (some first)) (hfirst : first.trim = first ∧ '\n' ∉ first)
    (hrun : ∀ raw ∈ run, '\n' ∉ raw) : Entry.Sound d key (some (Item.whole d first run)) := by
  have hrows : ∀ row ∈ run.map (Line.clean d), Line.Cleaned d row := by
    intro row hrow
    obtain ⟨raw, hraw, rfl⟩ := List.mem_map.1 hrow
    exact hd.cleaned_clean (hrun raw hraw)
  obtain ⟨kept, hkept, hlast, htrim⟩ :=
    exists_joinLines_eq_trimEnd hfirst.1 fun row hrow => (hrows row hrow).trim_eq
  refine ⟨h.keyFits, by simp, ?_, h.quietKey, ?_⟩
  · intro text htext
    cases htext
    rw [Item.whole, htrim]
    refine Entry.valueFits_joinLines hfirst (fun row hrow => ?_) hlast
    have hclean := hrows row (hkept.subset hrow)
    exact ⟨hclean.trim_eq, hclean.newline, hclean.comment⟩
  · intro text htext
    cases htext
    have hjoined := (Line.quiet_joinLines hd.isBlank_inlineMarks).2
      ⟨h.quietValue first rfl, fun row hrow => (hrows row hrow).quiet⟩
    exact hjoined.trimEnd

theorem sound_cut (hd : d.Marked) (hfold : d.Unfolded) {number : Nat} {lines : List Text}
    (hlines : ∀ raw ∈ lines, '\n' ∉ raw) :
    ∀ item ∈ Item.cut d number lines, item.statement.Sound d := by
  fun_induction Item.cut d number lines with
  | case1 => simp
  | case2 number raw rest hblank ih => exact ih fun row hrow => hlines row (by simp [hrow])
  | case3 number raw rest hblank key first hs run ih =>
      have hclean := hd.cleaned_clean (hlines raw (by simp))
      have hsound := hd.sound_ofCleaned hfold hclean
      rw [hs] at hsound
      cases hsound with
      | entry hentry =>
          have hrun : ∀ line ∈ run, '\n' ∉ line := fun line hline =>
            hlines line (List.mem_cons_of_mem _ ((List.takeWhile_prefix _).subset hline))
          intro item hitem
          rcases List.mem_cons.1 hitem with rfl | hmem
          · exact .entry (hd.sound_whole hentry (first_ofCleaned hclean hs) hrun)
          · exact ih (fun line hline => hlines line
              (List.mem_cons_of_mem _ ((List.dropWhile_suffix _).subset hline))) item hmem
  | case4 number raw rest hblank hopen ih =>
      intro item hitem
      rcases List.mem_cons.1 hitem with rfl | hmem
      · exact hd.sound_ofCleaned hfold (hd.cleaned_clean (hlines raw (by simp)))
      · exact ih (fun row hrow => hlines row (by simp [hrow])) item hmem

end Dialect.Marked

/-! ## The store -/

/-- A store as a reading builds it up. The unnamed section may still be empty. -/
structure Store.Sound (d : Dialect) (s : Store) : Prop where
  defaultName : s.defaultName = d.defaultSection
  wellFormed : s.WellFormed
  entries : ∀ {name content}, s.entries? name = some content →
    ∀ pair ∈ content, Entry.Sound d pair.1 pair.2
  defaults : s.defaults ≠ [] → d.Heads d.defaultSection
  named : ∀ name ∈ s.sectionNames,
    name ≠ d.defaultSection ∧ (name = unnamedSection ∨ d.Heads name)
  unnamed : unnamedSection ∈ s.sectionNames →
    d.headless = true ∧ s.sectionNames.head? = some unnamedSection

namespace Store

variable {d : Dialect} {s : Store} {name key : Text} {value : Option Text}

theorem sound_empty (d : Dialect) : Sound d { defaultName := d.defaultSection } := by
  refine ⟨rfl, wellFormed_empty _, ?_, by simp, by simp [sectionNames, Table.keys],
    by simp [sectionNames, Table.keys]⟩
  intro name content hcontent pair hpair
  unfold entries? at hcontent
  split at hcontent
  · cases hcontent
    cases hpair
  · cases hcontent

theorem Sound.put (h : s.Sound d) (hentry : Entry.Sound d key value)
    (hname : name = d.defaultSection → d.Heads name) : (s.put name key value).Sound d := by
  refine ⟨by simpa using h.defaultName, h.wellFormed.put name key value, ?_, ?_, ?_, ?_⟩
  · intro other content hcontent pair hpair
    rw [entries?_put] at hcontent
    split at hcontent
    · obtain ⟨before, hbefore, rfl⟩ := Option.map_eq_some_iff.1 hcontent
      rcases Table.mem_put hpair with rfl | hmem
      · exact hentry
      · exact h.entries hbefore pair hmem
    · exact h.entries hcontent pair hpair
  · intro hne
    by_cases hdefault : name = d.defaultSection
    · exact hdefault ▸ hname hdefault
    · refine h.defaults ?_
      simpa [Store.put, adjust, h.defaultName, hdefault] using hne
  · rw [sectionNames_put]
    exact h.named
  · rw [sectionNames_put]
    exact h.unnamed

theorem Sound.insertSection (h : s.Sound d) (hdefault : name ≠ d.defaultSection)
    (hname : name = unnamedSection ∨ d.Heads name)
    (hunnamed : name = unnamedSection → d.headless = true ∧ s.sectionNames = []) :
    (s.insertSection name).Sound d := by
  have hnames := sectionNames_insertSection s name
  refine ⟨by simpa using h.defaultName, h.wellFormed.insertSection name, ?_, ?_, ?_, ?_⟩
  · intro other content hcontent pair hpair
    rw [entries?_insertSection] at hcontent
    split at hcontent
    · cases hcontent
      cases hpair
    · exact h.entries hcontent pair hpair
  · intro hne
    refine h.defaults ?_
    unfold Store.insertSection at hne
    split at hne
    · exact hne
    · exact hne
  · intro other hother
    rcases mem_sectionNames_insertSection hother with rfl | hmem
    · exact ⟨hdefault, hname⟩
    · exact h.named other hmem
  · rw [hnames]
    split
    · exact h.unnamed
    · intro hmem
      rcases List.mem_append.1 hmem with hmem | hmem
      · obtain ⟨hheadless, hhead⟩ := h.unnamed hmem
        exact ⟨hheadless, by simp [hhead]⟩
      · obtain rfl := List.mem_singleton.1 hmem
        obtain ⟨hheadless, hnil⟩ := hunnamed rfl
        exact ⟨hheadless, by simp [hnil]⟩

end Store

/-! ## The acting -/

/-- Where the acting stands on a sound text, if no item was malformed. -/
structure Progress.Kept (d : Dialect) (p : Progress) : Prop where
  store : p.store.Sound d
  filled : p.store.entries? unnamedSection ≠ some []
  current : ∀ name ∈ p.current, name = d.defaultSection → d.Heads name
  start : p.current = none → p.store.sectionNames = []

/-- What holds of the acting on a sound text. -/
def Progress.Sound (d : Dialect) (p : Progress) : Prop := p.malformed = [] → p.Kept d

namespace Progress

variable {d : Dialect} {source : Text} {item : Item} {p q : Progress} {name : Text}

theorem sound_note (d : Dialect) (p : Progress) (item : Item) : (p.note item).Sound d := by
  intro hnil
  simp [note] at hnil

theorem Sound.begin (h : p.Sound d) (hhead : name = [] ∨ d.Heads name)
    (hunnamed : name ≠ unnamedSection) (hq : p.begin d source item name = (q, .ok ())) :
    q.Sound d := by
  unfold Progress.begin at hq
  split at hq
  · cases hq
    exact sound_note d _ item
  · next hne =>
      have hname : d.Heads name := hhead.resolve_left hne
      split at hq
      · cases hq
        intro hmalformed
        have hkept := h hmalformed
        refine ⟨hkept.store, hkept.filled, fun other hother _ => ?_, by simp⟩
        cases hother
        exact hname
      · next hdefault =>
          split at hq
          · cases hq
          · cases hq
            intro hmalformed
            have hkept := h hmalformed
            refine ⟨?_, ?_, fun other hother _ => ?_, by simp⟩
            · exact hkept.store.insertSection hdefault (.inr hname) fun e => absurd e hunnamed
            · rw [Store.entries?_insertSection, if_neg fun e => hunnamed e.1]
              exact hkept.filled
            · cases hother
              exact hname

/-- An entry goes where the acting stands, or it makes the unnamed section. -/
theorem Sound.record {key : Text} {value : Option Text} (h : p.Sound d)
    (hdefault : d.defaultSection ≠ unnamedSection) (hentry : Entry.Sound d key value)
    (hs : item.statement = .entry key value) {middle : Progress}
    (hmiddle : p.home d = some (name, middle))
    (hq : middle.record d source item name = (q, .ok ())) : q.Sound d := by
  rw [Progress.record, hs] at hq
  simp only [] at hq
  split at hq
  · cases hq
  · cases hq
    intro hmalformed
    unfold home at hmiddle
    split at hmiddle
    · next hcurrent =>
        cases hmiddle
        have hkept := h hmalformed
        refine ⟨hkept.store.put hentry (hkept.current name hcurrent), ?_, hkept.current, ?_⟩
        · rw [Store.entries?_put]
          split
          · simp [Table.put_ne_nil]
          · exact hkept.filled
        · intro hnone
          rw [hcurrent] at hnone
          cases hnone
    · next hcurrent =>
        split at hmiddle
        · next hheadless =>
            cases hmiddle
            have hkept := h hmalformed
            have hstore : (p.store.insertSection unnamedSection).Sound d :=
              hkept.store.insertSection hdefault.symm (.inl rfl) fun _ =>
                ⟨hheadless, hkept.start hcurrent⟩
            refine ⟨hstore.put hentry fun e => absurd e hdefault.symm, ?_, ?_, by simp⟩
            · rw [Store.entries?_put, if_pos rfl]
              simp [Table.put_ne_nil]
            · intro other hother e
              cases hother
              exact absurd e hdefault.symm
        · cases hmiddle

theorem Sound.act (h : p.Sound d) (hdefault : d.defaultSection ≠ unnamedSection)
    (hitem : item.statement.Sound d) (hunnamed : item.statement ≠ .header unnamedSection)
    (hq : p.act d source item = (q, .ok ())) : q.Sound d := by
  unfold Progress.act at hq
  split at hq
  · next name hs =>
      rw [hs] at hitem hunnamed
      cases hitem with
      | header hname => exact h.begin hname (fun e => hunnamed (e ▸ rfl)) hq
  · next hopen =>
      split at hq
      · cases hq
      · next name middle hmiddle =>
          cases hs : item.statement with
          | header name => exact absurd hs (hopen name)
          | entry key value =>
              rw [hs] at hitem
              cases hitem with
              | entry hentry => exact h.record hdefault hentry hs hmiddle hq
          | malformed =>
              rw [Progress.record, hs] at hq
              cases hq
              exact sound_note d middle item

theorem Sound.actAll (h : p.Sound d) (hdefault : d.defaultSection ≠ unnamedSection) {items : List Item}
    (hitems : ∀ item ∈ items, item.statement.Sound d ∧ item.statement ≠ .header unnamedSection)
    (hq : p.actAll d source items = (q, .ok ())) : q.Sound d := by
  induction items generalizing p with
  | nil =>
      cases hq
      exact h
  | cons item rest ih =>
      rw [Progress.actAll] at hq
      split at hq
      · next middle hact =>
          obtain ⟨hsound, hunnamed⟩ := hitems item (by simp)
          have hmiddle := h.act hdefault hsound hunnamed hact
          exact ih hmiddle (fun other hother => hitems other (by simp [hother])) hq
      · cases hq

end Progress

/-- What a text without a header for the unnamed section is read as. -/
theorem Dialect.Marked.sound_of_read {d : Dialect} {source text : Text} {s : Store}
    (hd : d.Marked) (hfold : d.Unfolded)
    (hblank : d.blankLinesInValues = true) (hdefault : d.defaultSection ≠ unnamedSection)
    (hheader : ∀ item ∈ Item.cut d 1 text.lines, item.statement ≠ .header unnamedSection)
    (hread : ({ defaultName := d.defaultSection } : Store).read d source text = (s, .ok ())) :
    s.Sound d ∧ s.entries? unnamedSection ≠ some [] := by
  have hall := Progress.conclude_feedAll source hblank 1 text.lines _
    (Progress.settled_start (s := { defaultName := d.defaultSection }) rfl)
  rw [Reader.read_eq_conclude] at hread
  have hstart : Progress.Sound d { store := { defaultName := d.defaultSection } } := by
    intro _
    refine ⟨Store.sound_empty d, ?_, by simp, by simp [Store.sectionNames, Table.keys]⟩
    simp [Store.entries?, hdefault.symm, Table.find?]
  have hitems : ∀ item ∈ Item.cut d 1 text.lines,
      item.statement.Sound d ∧ item.statement ≠ .header unnamedSection := by
    intro item hitem
    exact ⟨hd.sound_cut hfold (fun raw hraw => newline_not_mem_of_mem_lines hraw) item hitem,
      hheader item hitem⟩
  have hconclude := hall.symm.trans hread
  unfold Progress.conclude at hconclude
  split at hconclude
  · next p hact =>
      have hsound := hstart.actAll hdefault hitems hact
      obtain ⟨hstore, houtcome⟩ := Prod.mk.inj hconclude
      split at houtcome
      · next hmalformed =>
          have hkept := hsound hmalformed
          rw [← hstore]
          exact ⟨hkept.store, hkept.filled⟩
      · cases houtcome
  · cases hconclude

namespace Store

variable {d : Dialect} {source text : Text} {s : Store}

theorem sound_of_read (hd : d.Plain) (hfold : d.Unfolded)
    (hheader : ∀ item ∈ Item.cut d 1 text.lines, item.statement ≠ .header unnamedSection)
    (hread : ({ defaultName := d.defaultSection } : Store).read d source text = (s, .ok ())) :
    s.Sound d ∧ s.entries? unnamedSection ≠ some [] :=
  hd.marked.sound_of_read hfold hd.blankLines hd.defaultSection hheader hread

theorem Sound.arranged (h : s.Sound d) (hdefault : d.defaultSection ≠ unnamedSection)
    (hfilled : s.entries? unnamedSection ≠ some []) : s.Arranged d := by
  refine ⟨h.defaultName, h.wellFormed, fun hne => (h.defaults hne).ne_nil, ?_, ?_⟩
  · intro name hname
    obtain ⟨hne, hhead⟩ := h.named name hname
    refine ⟨?_, hne⟩
    rcases hhead with rfl | hhead
    · decide
    · exact hhead.ne_nil
  · intro content hcontent
    have hfind : s.sections.find? unnamedSection = some content := by
      rwa [Option.mem_def, Store.entries?, if_neg (h.defaultName ▸ hdefault.symm)] at hcontent
    have hmem := Table.mem_of_find?_eq_some hfind
    obtain ⟨hheadless, hhead⟩ := h.unnamed (List.mem_map_of_mem hmem)
    refine ⟨hheadless, fun hnil => hfilled (hnil ▸ hcontent), ?_⟩
    rw [sectionNames, Table.keys, List.head?_map, Option.map_eq_some_iff] at hhead
    obtain ⟨⟨name, first⟩, hfirst, rfl⟩ := hhead
    have hfound := Table.find?_eq_some_of_mem h.wellFormed.1 (List.mem_of_head? hfirst)
    rw [hfirst]
    rw [hfind] at hfound
    cases hfound
    rfl

end Store

end Ini
