import Ini.Proofs.Marked

/-!
# The line a key is written on

Each entry of a store stands somewhere in the text that is written, on lines of
its own, and the first of these begins with its key. What the reader makes of
that line, it makes of it alone.

If a delimiter follows the key, the key was checked, and the line is an entry
with this key and a value. A key that stands alone was not checked. Its line is
the key itself, and if the key is in brackets or holds a delimiter, the line is
a header or an entry with some other key.
-/

namespace Ini

open Text

/-- A key that trimming and folding leave alone and that does not look like a
comment. -/
@[mk_iff]
structure Entry.KeyTidy (d : Dialect) (key : Text) : Prop where
  ne_nil : key ≠ []
  fold_eq : key.fold = key
  trim_eq : key.trim = key
  newline : '\n' ∉ key
  comment : ∀ mark ∈ d.commentMarks, ¬mark <+: key

instance {d : Dialect} {key : Text} : Decidable (Entry.KeyTidy d key) :=
  decidable_of_iff' _ (Entry.keyTidy_iff d key)

theorem Entry.KeyTidy.keyFits {d : Dialect} {key : Text} (h : KeyTidy d key)
    (hdelimiter : ∀ mark ∈ d.delimiters, ¬mark <:+: key) : KeyFits d key :=
  ⟨h.ne_nil, h.fold_eq, h.trim_eq, h.newline, h.comment, hdelimiter⟩

theorem Line.clean_chomp {d : Dialect} (hinline : d.inlineMarks = []) (row : Text) :
    clean d row.chomp = clean d row := by
  simp only [clean, hinline, List.foldl_nil, trim_chomp]

/-! ## Where the writer puts an entry -/

namespace Render

variable {d : Dialect} {spaced : Bool} {key : Text} {value : Option Text} {text : Text}

/-- Whether the key is followed by a delimiter. -/
def Delimited (d : Dialect) (value : Option Text) : Prop := ¬(d.bareKeys = true ∧ value = none)

instance : Decidable (Delimited d value) := inferInstanceAs (Decidable (¬_))

theorem entry_bare (h : ¬Delimited d value) (spaced : Bool) (key : Text) :
    entry d spaced key value = .ok (key ++ ['\n']) := by
  obtain ⟨hbare, rfl⟩ := not_not.1 h
  simp [entry, hbare]

/-- A key that is followed by a delimiter was checked. -/
theorem entry_delimited (h : Delimited d value) (hentry : entry d spaced key value = .ok text) :
    keyFlaw? d key = none ∧
      text = key ++ delimiter d spaced ++ Render.value (value.getD []) ++ ['\n'] := by
  have hbare : ¬(d.bareKeys && value.isNone) = true := by simpa [Delimited] using h
  rw [entry, if_neg hbare] at hentry
  split at hentry
  · cases hentry
  · next hflaw => exact ⟨hflaw, (Except.ok.inj hentry).symm⟩

theorem exists_unlines_entry (h : entry d spaced key value = .ok text) :
    ∃ rows, text = unlines rows := by
  by_cases hdelimited : Delimited d value
  · obtain ⟨-, rfl⟩ := entry_delimited hdelimited h
    exact ⟨[key ++ delimiter d spaced ++ Render.value (value.getD [])], by simp⟩
  · rw [entry_bare hdelimited] at h
    cases h
    exact ⟨[key], by simp⟩

theorem exists_of_append_eq_ok {front back : Except Fault Text}
    (h : (do return (← front) ++ (← back)) = Except.ok text) :
    ∃ first rest, front = .ok first ∧ back = .ok rest ∧ text = first ++ rest := by
  cases front with
  | error e => cases h
  | ok first =>
      cases back with
      | error e => cases h
      | ok rest => exact ⟨first, rest, rfl, rfl, (Except.ok.inj h).symm⟩

theorem holds_entries {content : Entries} (h : entries d spaced content = .ok text)
    (hmem : (key, value) ∈ content) :
    ∃ part, entry d spaced key value = .ok part ∧ text.Holds part := by
  induction content generalizing text with
  | nil => cases hmem
  | cons pair content ih =>
      obtain ⟨first, rest, hfirst, hrest, rfl⟩ := exists_of_append_eq_ok h
      rcases List.mem_cons.1 hmem with rfl | hmem
      · exact ⟨first, hfirst, (Holds.refl first).append_right rest⟩
      · obtain ⟨part, hpart, hholds⟩ := ih hrest hmem
        obtain ⟨rows, rfl⟩ := exists_unlines_entry hfirst
        exact ⟨part, hpart, hholds.append_left rows⟩

theorem block_eq_ok {heading : Text} {content : Entries}
    (h : block d spaced heading content = .ok text) :
    ∃ middle, entries d spaced content = .ok middle ∧ text = heading ++ middle ++ ['\n'] := by
  unfold block at h
  cases hentries : entries d spaced content with
  | error e =>
      rw [hentries] at h
      cases h
  | ok middle =>
      rw [hentries] at h
      exact ⟨middle, rfl, (Except.ok.inj h).symm⟩

theorem holds_block {heading : List Text} {content : Entries}
    (h : block d spaced (unlines heading) content = .ok text) (hmem : (key, value) ∈ content) :
    ∃ part, entry d spaced key value = .ok part ∧ text.Holds part := by
  obtain ⟨middle, hentries, rfl⟩ := block_eq_ok h
  obtain ⟨part, hpart, hholds⟩ := holds_entries hentries hmem
  exact ⟨part, hpart, (hholds.append_left heading).append_right _⟩

theorem exists_unlines_block {heading : Text} {content : Entries}
    (h : block d spaced heading content = .ok text) : ∃ rows, text = unlines rows := by
  obtain ⟨middle, -, rfl⟩ := block_eq_ok h
  exact ⟨[heading ++ middle], by simp⟩

theorem holds_blocks {sections : Table Text Entries} {part : Text × Entries}
    (h : blocks d spaced sections = .ok text) (hsection : part ∈ sections)
    (hmem : (key, value) ∈ part.2) :
    ∃ part, entry d spaced key value = .ok part ∧ text.Holds part := by
  induction sections generalizing text with
  | nil => cases hsection
  | cons other sections ih =>
      obtain ⟨first, rest, hfirst, hrest, rfl⟩ := exists_of_append_eq_ok h
      rcases List.mem_cons.1 hsection with rfl | hsection
      · rw [header_eq_unlines] at hfirst
        obtain ⟨part, hpart, hholds⟩ := holds_block hfirst hmem
        exact ⟨part, hpart, hholds.append_right rest⟩
      · obtain ⟨part, hpart, hholds⟩ := ih hrest hsection
        obtain ⟨rows, rfl⟩ := exists_unlines_block hfirst
        exact ⟨part, hpart, hholds.append_left rows⟩

/-! ## How the line is read -/

theorem exists_value_eq (text : Text) :
    ∃ first rest, '\n' ∉ first ∧ Render.value text ++ ['\n'] = first ++ '\n' :: rest := by
  obtain ⟨first, others, hsplit⟩ := List.exists_cons_of_ne_nil (List.splitOn_ne_nil '\n' text)
  have hrows : ∀ row ∈ first :: others, '\n' ∉ row := by
    intro row hrow
    rw [← hsplit] at hrow
    exact newline_not_mem_of_mem_splitOn hrow
  have hvalue := value_joinLines (hrows first List.mem_cons_self) fun row hrow =>
    hrows row (List.mem_cons_of_mem _ hrow)
  rw [← hsplit, joinLines_splitOn, unlines_cons] at hvalue
  exact ⟨first, _, hrows first List.mem_cons_self, hvalue⟩

/-- A key that was checked is read from its line, with a value. -/
theorem states_delimited (hd : d.Marked) (hinline : d.inlineMarks = [])
    (hkey : Entry.KeyTidy d key) (hdelimited : Delimited d value)
    (hentry : entry d spaced key value = .ok text) :
    ∃ line rest first, text.lines = line :: rest ∧
      Statement.ofCleaned d (Line.clean d line) = .entry key (some first) := by
  obtain ⟨hflaw, rfl⟩ := entry_delimited hdelimited hentry
  -- Of the value only the first row is on the line of the key.
  obtain ⟨first, rest, hfirst, hvalue⟩ := exists_value_eq (value.getD [])
  obtain ⟨pad, c, hdelimiter, -, hc, hpad⟩ := hd.exists_delimiter spaced
  have hnewline : '\n' ∉ key ++ delimiter d spaced ++ first := by
    have hpadn : '\n' ∉ pad := fun hmem => absurd (hpad _ hmem) (by decide)
    have hcn : '\n' ≠ c := by
      rintro rfl
      exact absurd hc (by decide)
    simp [hdelimiter, hkey.newline, hpadn, hcn, hfirst]
  have hlines : lines (key ++ delimiter d spaced ++ Render.value (value.getD []) ++ ['\n']) =
      chomp (key ++ delimiter d spaced ++ first) :: lines rest := by
    rw [List.append_assoc, hvalue, ← List.append_assoc, lines_append_cons hnewline]
  have hquiet : Line.Quiet d.inlineMarks true (key ++ delimiter d spaced ++ first) := by
    rw [hinline]
    exact Line.quiet_of_nil ..
  obtain ⟨hhead, hfree⟩ := keyFlaw?_eq_none_iff.1 hflaw
  have hfits : Entry.KeyFits d key := by
    refine hkey.keyFits fun mark hmark => hfree mark hmark ?_
    rintro rfl
    cases hd.single_delimiters [] hmark
  obtain ⟨-, hstates⟩ := hd.states_valued hfits hhead hquiet
  refine ⟨_, _, first.trim, hlines, ?_⟩
  rw [Line.clean_chomp hinline, hstates]

/-- A key that stands alone is read as what its text says. -/
theorem states_bare (hd : d.Marked) (hinline : d.inlineMarks = []) (hkey : Entry.KeyTidy d key)
    (hbare : ¬Delimited d value) (hentry : entry d spaced key value = .ok text) :
    text.lines = [key] ∧ Line.clean d key = key := by
  rw [entry_bare hbare] at hentry
  cases hentry
  refine ⟨?_, hd.clean_eq_self hkey.trim_eq hkey.comment ?_⟩
  · rw [lines_append_newline (oneLine_of_trim_eq_self hkey.trim_eq hkey.newline)]
    rfl
  · rw [hinline]
    exact Line.quiet_of_nil ..

theorem ofCleaned_bare (hkey : Entry.KeyTidy d key) (hbare : d.bareKeys = true) :
    Statement.ofCleaned d key = .entry key none ↔
      Statement.headerName? key = none ∧ cut d.delimiters key = none := by
  unfold Statement.ofCleaned
  cases hheader : Statement.headerName? key with
  | some name => simp
  | none =>
      cases hcut : cut d.delimiters key with
      | some found =>
          refine iff_of_false (fun h => ?_) (by simp)
          simp only [Statement.ofKey] at h
          split at h
          · cases h
          · cases h
      | none =>
          refine iff_of_true ?_ ⟨rfl, rfl⟩
          simp only [hbare, if_true]
          rw [Statement.ofKey, hkey.trim_eq, if_neg (by simpa using hkey.ne_nil), hkey.fold_eq]
          rfl

end Render

namespace Store

variable {d : Dialect} {spaced : Bool} {s : Store} {name key text : Text} {value : Option Text}
  {content : Entries}

theorem mem_headed_of_entries? (h : s.entries? name = some content) (hne : content ≠ [])
    (hname : name ≠ unnamedSection) : (name, content) ∈ s.headed := by
  unfold entries? at h
  split at h
  · next hdefault =>
      cases h
      rw [hdefault, headed, if_neg (by simpa using hne)]
      exact List.mem_append_left _ (List.mem_singleton_self _)
  · have hmem := Table.mem_of_find?_eq_some h
    exact List.mem_append_right _ (List.mem_filter.2 ⟨hmem, by simpa using hname⟩)

/-- Every entry that a section name addresses is written somewhere. -/
theorem holds_render (hrender : s.render d spaced = .ok text)
    (hcontent : s.entries? name = some content) (hpair : (key, value) ∈ content) :
    ∃ part, Render.entry d spaced key value = .ok part ∧ text.Holds part := by
  obtain ⟨unnamed, rest, hunnamed, hblocks, rfl⟩ := Render.exists_of_append_eq_ok hrender
  by_cases hname : name = unnamedSection
  · rw [renderUnnamed, ← hname, hcontent] at hunnamed
    have hblock : Render.block d spaced (unlines []) content = .ok unnamed := hunnamed
    obtain ⟨part, hpart, hholds⟩ := Render.holds_block hblock hpair
    exact ⟨part, hpart, hholds.append_right rest⟩
  · have hheaded := mem_headed_of_entries? hcontent (List.ne_nil_of_mem hpair) hname
    obtain ⟨part, hpart, hholds⟩ := Render.holds_blocks hblocks hheaded hpair
    obtain ⟨rows, rfl⟩ : ∃ rows, unnamed = unlines rows := by
      unfold renderUnnamed at hunnamed
      split at hunnamed
      · exact ⟨[], (Except.ok.inj hunnamed).symm⟩
      · exact Render.exists_unlines_block hunnamed
    exact ⟨part, hpart, hholds.append_left rows⟩

end Store

/-- The line on which a key is written is read as an entry with this key, with a
value just if a delimiter was written, unless the key stands alone and is a
header or holds a delimiter. -/
theorem Store.reads_key_of_render {d : Dialect} {s : Store} (hd : d.Marked)
    (hinline : d.inlineMarks = []) {spaced : Bool} {text : Text}
    (hrender : s.render d spaced = .ok text) {name key : Text} {value : Option Text}
    {content : Entries} (hcontent : s.entries? name = some content)
    (hpair : (key, value) ∈ content) (hkey : Entry.KeyTidy d key) :
    ∃ part line rest, Render.entry d spaced key value = .ok part ∧ part.lines = line :: rest ∧
      part.lines <:+: text.lines ∧
      ((∃ first, Statement.ofCleaned d (Line.clean d line) = .entry key first ∧
          (first.isSome = true ↔ Render.Delimited d value)) ↔
        Render.Delimited d value ∨
          Statement.headerName? key = none ∧ cut d.delimiters key = none) := by
  obtain ⟨part, hentry, hholds⟩ := holds_render hrender hcontent hpair
  have hinfix : part.lines <:+: text.lines := by
    obtain ⟨rows, rfl⟩ := Render.exists_unlines_entry hentry
    exact hholds.lines_infix
  by_cases hdelimited : Render.Delimited d value
  · obtain ⟨line, rest, first, hlines, hstates⟩ :=
      Render.states_delimited hd hinline hkey hdelimited hentry
    refine ⟨part, line, rest, hentry, hlines, hinfix, ?_⟩
    exact iff_of_true ⟨some first, hstates, by simp [hdelimited]⟩ (.inl hdelimited)
  · obtain ⟨hlines, hclean⟩ := Render.states_bare hd hinline hkey hdelimited hentry
    refine ⟨part, key, [], hentry, hlines, hinfix, ?_⟩
    rw [hclean, ← Render.ofCleaned_bare hkey (not_not.1 hdelimited).1]
    simp only [hdelimited, iff_false, false_or]
    constructor
    · intro h
      obtain ⟨first, hstates, hnone⟩ := h
      rwa [Option.not_isSome_iff_eq_none.1 hnone] at hstates
    · intro h
      exact ⟨none, h, by simp⟩

/-- A dialect in which keys may stand alone. -/
def Dialect.terse : Dialect := { bareKeys := true }

/-- A store in which a key stands alone among others. -/
def Store.flagged : Store where
  defaultName := defaultSectionName
  defaults := [("mode".toList, some "a = b\n[c]".toList)]
  sections := [("s".toList, [("x [1]".toList, some []), ("quiet".toList, none)])]

theorem Store.reads_key_of_render_flagged :
    Dialect.terse.Marked ∧ Dialect.terse.inlineMarks = [] ∧ Entry.KeyTidy .terse "quiet".toList ∧
      ∃ text content, flagged.render .terse true = .ok text ∧
        flagged.entries? "s".toList = some content ∧ ("quiet".toList, none) ∈ content ∧
        ∃ part line rest, Render.entry .terse true "quiet".toList none = .ok part ∧
          part.lines = line :: rest ∧ part.lines <:+: text.lines ∧
          ((∃ first, Statement.ofCleaned .terse (Line.clean .terse line) =
                .entry "quiet".toList first ∧
              (first.isSome = true ↔ Render.Delimited .terse none)) ↔
            Render.Delimited .terse none ∨ Statement.headerName? "quiet".toList = none ∧
              cut Dialect.terse.delimiters "quiet".toList = none) := by
  have hcontent : flagged.entries? "s".toList =
      some [("x [1]".toList, some []), ("quiet".toList, none)] := rfl
  refine ⟨by decide, rfl, by decide, _, _, rfl, hcontent, by decide, ?_⟩
  exact reads_key_of_render (by decide) rfl rfl hcontent (by decide) (by decide)

/-- A key in brackets that stands alone is written, and its line is a header. -/
theorem Store.exists_header_of_render :
    Entry.KeyTidy .terse "[x]".toList ∧
      ∃ text, Store.render .terse true
          { defaultName := defaultSectionName
            sections := [("s".toList, [("[x]".toList, none)])] } = .ok text ∧
        text.lines = ["[s]".toList, "[x]".toList, []] ∧
        Statement.ofCleaned .terse (Line.clean .terse "[x]".toList) = .header "x".toList :=
  ⟨by decide, _, rfl, by decide, by decide⟩

end Ini
