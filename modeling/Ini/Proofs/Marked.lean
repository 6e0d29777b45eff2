import Ini.Proofs.Rebuilt
import Ini.Proofs.Text.Cut
import Ini.Proofs.Text.Quiet

/-!
# Lines of single marks

Where all marks are single characters, a written line is understood as it was
meant: cleaning it can only take blanks off its end, because its first character
is the first of a key, and the leftmost delimiter on it is the one that was
written. All it takes is that no inline mark opens a comment on it.

There is one place where the writer itself can make a comment. It puts a blank
behind the delimiter, and if the value begins with an inline mark, the blank
makes that mark open a comment, which takes the first row of the value with it.
`Dialect.readBack` says what is left of a value, and the lines of an entry state
that (`Entry.readAs_valued`).
-/

namespace Ini

open Text

/-- All marks are single characters that are not blank. An inline mark is neither
a delimiter nor a letter that folding could make. -/
@[mk_iff]
structure Dialect.Marked (d : Dialect) : Prop where
  delimiters_ne_nil : d.delimiters ≠ []
  delimiters : ∀ mark ∈ d.delimiters, mark.length = 1 ∧ mark.any isBlank = false
  commentMarks : ∀ mark ∈ d.commentMarks, mark.length = 1 ∧ mark.any isBlank = false
  inlineMarks : ∀ mark ∈ d.inlineMarks,
    mark.length = 1 ∧ mark.any isBlank = false ∧ mark.any Char.isLower = false ∧
      ∀ delimiter ∈ d.delimiters, mark ≠ delimiter

/-- A key that trimming and folding leave alone and that looks neither like a
comment nor like a key with its delimiter. -/
@[mk_iff]
structure Entry.KeyFits (d : Dialect) (key : Text) : Prop where
  ne_nil : key ≠ []
  fold_eq : key.fold = key
  trim_eq : key.trim = key
  newline : '\n' ∉ key
  comment : ∀ mark ∈ d.commentMarks, ¬mark <+: key
  delimiter : ∀ mark ∈ d.delimiters, ¬mark <:+: key

/-- A value whose rows are what trimming leaves. Only the first can look like a
comment, and only the first can be the last and empty. -/
@[mk_iff]
structure Entry.ValueFits (d : Dialect) (value : Text) : Prop where
  trim_eq : ∀ row ∈ value.splitOn '\n', trim row = row
  comment : ∀ row ∈ (value.splitOn '\n').tail, ∀ mark ∈ d.commentMarks, ¬mark <+: row
  last : ∀ row ∈ (value.splitOn '\n').tail.getLast?, row ≠ []

instance {d : Dialect} : Decidable d.Marked := decidable_of_iff' _ (Dialect.marked_iff d)

instance {d : Dialect} {key : Text} : Decidable (Entry.KeyFits d key) :=
  decidable_of_iff' _ (Entry.keyFits_iff d key)

instance {d : Dialect} {value : Text} : Decidable (Entry.ValueFits d value) :=
  decidable_of_iff' _ (Entry.valueFits_iff d value)

/-! ## Single lines -/

/-- The keys that the writer's check lets pass. -/
theorem Render.keyFlaw?_eq_none_iff {d : Dialect} {key : Text} :
    keyFlaw? d key = none ↔
      key.head? ≠ some '[' ∧ ∀ mark ∈ d.delimiters, mark ≠ [] → ¬mark <:+: key := by
  unfold keyFlaw?
  split
  · next hhead => simp [hhead]
  · next hhead =>
      rw [Option.map_eq_none_iff, List.find?_eq_none]
      simp [hhead, cut_eq_none_iff]

namespace Dialect.Marked

variable {d : Dialect} {key first row name : Text} {spaced : Bool}

theorem single_delimiters (hd : d.Marked) : ∀ mark ∈ d.delimiters, mark.length = 1 :=
  fun mark hmark => (hd.delimiters mark hmark).1

theorem isBlank_delimiter (hd : d.Marked) {c : Char} (hc : [c] ∈ d.delimiters) :
    isBlank c = false := by
  simpa using (hd.delimiters [c] hc).2

theorem single_commentMarks (hd : d.Marked) : ∀ mark ∈ d.commentMarks, mark.length = 1 :=
  fun mark hmark => (hd.commentMarks mark hmark).1

theorem single_inlineMarks (hd : d.Marked) : ∀ mark ∈ d.inlineMarks, mark.length = 1 :=
  fun mark hmark => (hd.inlineMarks mark hmark).1

theorem isBlank_inlineMarks (hd : d.Marked) : ∀ mark ∈ d.inlineMarks, mark.any isBlank = false :=
  fun mark hmark => (hd.inlineMarks mark hmark).2.1

theorem isLower_inlineMarks (hd : d.Marked) :
    ∀ mark ∈ d.inlineMarks, mark.any Char.isLower = false :=
  fun mark hmark => (hd.inlineMarks mark hmark).2.2.1

theorem not_mem_inlineMarks_of_delimiter (hd : d.Marked) {c : Char} (hc : [c] ∈ d.delimiters) :
    [c] ∉ d.inlineMarks :=
  fun hmark => (hd.inlineMarks [c] hmark).2.2.2 [c] hc rfl

theorem not_mem_inlineMarks_of_isBlank (hd : d.Marked) {c : Char} (hc : isBlank c = true) :
    [c] ∉ d.inlineMarks := by
  intro hmark
  have hblank := hd.isBlank_inlineMarks [c] hmark
  simp [hc] at hblank

theorem clean_eq_trim (hd : d.Marked) {raw : Text} (hquiet : Line.Quiet d.inlineMarks true raw)
    (hraw : Line.startsComment d.commentMarks raw.trim = false) : Line.clean d raw = raw.trim := by
  rw [Line.clean, hraw, Line.foldl_dropInline_of_quiet hd.single_inlineMarks hquiet]
  rfl

theorem startsComment_eq_false (hd : d.Marked)
    (h : ∀ mark ∈ d.commentMarks, ¬mark <+: row) :
    Line.startsComment d.commentMarks row = false := by
  cases row with
  | nil => exact Line.startsComment_nil _
  | cons c rest =>
      rw [Line.startsComment_cons hd.single_commentMarks, decide_eq_false_iff_not]
      exact fun hmem => h [c] hmem ⟨rest, rfl⟩

/-- A line that begins with a key is not a comment as a whole. -/
theorem startsComment_trim_append (hd : d.Marked) (hkey : Entry.KeyFits d key) (rest : Text) :
    Line.startsComment d.commentMarks (key ++ rest).trim = false := by
  obtain ⟨k, ks, rfl, hk⟩ := exists_cons_of_trim_eq_self hkey.trim_eq hkey.ne_nil
  have htrim : trim (k :: ks ++ rest) = k :: trimEnd (ks ++ rest) := by
    rw [List.cons_append, trim, trimStart_cons hk]
    exact trimEnd_append_cons hk [] (ks ++ rest)
  have hcomment : [k] ∉ d.commentMarks := fun hmark => hkey.comment [k] hmark ⟨ks, rfl⟩
  rw [htrim, Line.startsComment_cons hd.single_commentMarks]
  simpa using hcomment

theorem exists_primaryDelimiter (hd : d.Marked) :
    ∃ c, d.primaryDelimiter = [c] ∧ [c] ∈ d.delimiters ∧ isBlank c = false := by
  obtain ⟨mark, rest, hmarks⟩ := List.exists_cons_of_ne_nil hd.delimiters_ne_nil
  have hmem : mark ∈ d.delimiters := by simp [hmarks]
  obtain ⟨c, rfl⟩ := exists_eq_singleton hd.single_delimiters hmem
  exact ⟨c, by simp [Dialect.primaryDelimiter, hmarks], hmem, hd.isBlank_delimiter hmem⟩

/-- The delimiter that is written is a character that is not blank, with the same
blanks on both sides. -/
theorem exists_delimiter (hd : d.Marked) (spaced : Bool) :
    ∃ pad c, Render.delimiter d spaced = pad ++ c :: pad ∧ [c] ∈ d.delimiters ∧
      isBlank c = false ∧ ∀ b ∈ pad, b = ' ' := by
  obtain ⟨c, hprimary, hmem, hblank⟩ := hd.exists_primaryDelimiter
  cases spaced with
  | true => exact ⟨[' '], c, by simp [Render.delimiter, hprimary], hmem, hblank, by simp⟩
  | false => exact ⟨[], c, by simp [Render.delimiter, hprimary], hmem, hblank, by simp⟩

/-- With blanks around the delimiter a comment may open at the first character of
the value, without them it may not. -/
theorem quiet_valued (hd : d.Marked) (hkey : Line.Quiet d.inlineMarks true key)
    (hfirst : Line.Quiet d.inlineMarks spaced first) :
    Line.Quiet d.inlineMarks true (key ++ Render.delimiter d spaced ++ first) := by
  obtain ⟨c, hprimary, hmem, hblank⟩ := hd.exists_primaryDelimiter
  have hmark := hd.not_mem_inlineMarks_of_delimiter hmem
  have hspace : [' '] ∉ d.inlineMarks := hd.not_mem_inlineMarks_of_isBlank (by decide)
  cases spaced with
  | true =>
      have hline : key ++ Render.delimiter d true ++ first = key ++ ' ' :: (c :: ' ' :: first) := by
        simp [Render.delimiter, hprimary]
      rw [hline, Line.quiet_append_cons hspace]
      exact ⟨hkey, by simp [hmark], by simp [hblank], hfirst⟩
  | false =>
      have hline : key ++ Render.delimiter d false ++ first = key ++ c :: first := by
        simp [Render.delimiter, hprimary]
      rw [hline, Line.quiet_append_cons hmark, hblank]
      exact ⟨hkey, hfirst⟩

theorem not_mem_delimiters_of_isBlank (hd : d.Marked) {c : Char} (hc : isBlank c = true) :
    [c] ∉ d.delimiters := by
  intro hmem
  rw [hd.isBlank_delimiter hmem] at hc
  cases hc

theorem keyFlaw?_eq_none (hkey : Entry.KeyFits d key) (hhead : key.head? ≠ some '[') :
    Render.keyFlaw? d key = none := by
  exact Render.keyFlaw?_eq_none_iff.2 ⟨hhead, fun mark hmark _ => hkey.delimiter mark hmark⟩

theorem headerName?_cons {c : Char} (hc : c ≠ '[') (rest : Text) :
    Statement.headerName? (c :: rest) = none := by
  unfold Statement.headerName?
  split
  · next heq => exact absurd (List.cons.inj heq).1 hc
  · rfl

/-- A key, a delimiter and the first row of a value make one line. -/
theorem oneLine_valued {front pad : Text} {c : Char} (hfront : '\n' ∉ front)
    (hpad : ∀ b ∈ pad, b = ' ') (hc : isBlank c = false) (hfirst : first.trim = first)
    (hnewline : '\n' ∉ first) : OneLine (front ++ c :: pad ++ first) := by
  have hends : ∀ b ∈ c :: pad, b ≠ '\n' ∧ b ≠ '\r' := by
    intro b hb
    rcases List.mem_cons.1 hb with rfl | hmem
    · constructor
      · intro h
        rw [h] at hc
        exact absurd hc (by decide)
      · intro h
        rw [h] at hc
        exact absurd hc (by decide)
    · rw [hpad b hmem]
      decide
  refine ⟨?_, fun hlast => ?_⟩
  · intro hmem
    rcases List.mem_append.1 hmem with hmem | hmem
    · rcases List.mem_append.1 hmem with hmem | hmem
      · exact hfront hmem
      · exact (hends _ hmem).1 rfl
    · exact hnewline hmem
  · rw [List.getLast?_append] at hlast
    cases hrow : first.getLast? with
    | some b =>
        rw [hrow, Option.some_or, Option.some_inj] at hlast
        have hb := (trim_eq_self_iff.1 hfirst).2 b hrow
        rw [hlast] at hb
        exact absurd hb (by decide)
    | none =>
        rw [hrow, Option.none_or, List.getLast?_append_of_ne_nil _ (by simp)] at hlast
        exact (hends _ (List.mem_of_getLast? hlast)).2 rfl

/-- A line whose first delimiter stands behind `key` and a blank or two. -/
theorem ofCleaned_valued (hd : d.Marked) (hkey : Entry.KeyFits d key) (hhead : key.head? ≠ some '[')
    {pad after : Text} {c : Char} (hpad : ∀ b ∈ pad, b = ' ') (hmem : [c] ∈ d.delimiters) :
    Statement.ofCleaned d (key ++ pad ++ c :: after) = .entry key (some after.trim) := by
  obtain ⟨k, ks, rfl, hk⟩ := exists_cons_of_trim_eq_self hkey.trim_eq hkey.ne_nil
  have hblank : ∀ b ∈ pad, isBlank b = true := fun b hb => hpad b hb ▸ by decide
  have hheader : Statement.headerName? (k :: ks ++ pad ++ c :: after) = none :=
    headerName?_cons (by simpa using hhead) _
  have hfree : ∀ b ∈ k :: ks ++ pad, [b] ∉ d.delimiters := by
    intro b hb
    rcases List.mem_append.1 hb with hb | hb
    · intro hmark
      exact hkey.delimiter [b] hmark ((List.singleton_infix_iff b _).2 hb)
    · exact hd.not_mem_delimiters_of_isBlank (hblank b hb)
  have hbefore : trim (k :: ks ++ pad) = k :: ks := by
    rw [trim_append_of_blank hblank, hkey.trim_eq]
  rw [Statement.ofCleaned, hheader]
  simp only [cut_append_cons hd.single_delimiters hfree hmem]
  rw [Statement.ofKey, hbefore, if_neg (by simp), hkey.fold_eq]
  rfl

theorem clean_valued (hd : d.Marked) (hkey : Entry.KeyFits d key) {pad after : Text} {c : Char}
    (hc : isBlank c = false) (hquiet : Line.Quiet d.inlineMarks true (key ++ pad ++ c :: after)) :
    Line.clean d (key ++ pad ++ c :: after) = key ++ pad ++ c :: trimEnd after := by
  obtain ⟨k, ks, hcons, hk⟩ := exists_cons_of_trim_eq_self hkey.trim_eq hkey.ne_nil
  have hcomment : Line.startsComment d.commentMarks (trim (key ++ pad ++ c :: after)) = false := by
    rw [List.append_assoc]
    exact hd.startsComment_trim_append hkey _
  rw [hd.clean_eq_trim hquiet hcomment, trim, hcons, List.cons_append, List.cons_append,
    trimStart_cons hk]
  exact trimEnd_append_cons hc (k :: ks ++ pad) after

theorem states_valued (hd : d.Marked) (hkey : Entry.KeyFits d key) (hhead : key.head? ≠ some '[')
    (hquiet : Line.Quiet d.inlineMarks true (key ++ Render.delimiter d spaced ++ first)) :
    Line.clean d (key ++ Render.delimiter d spaced ++ first) ≠ [] ∧
      Statement.ofCleaned d (Line.clean d (key ++ Render.delimiter d spaced ++ first)) =
        .entry key (some first.trim) := by
  obtain ⟨pad, c, hdelimiter, hmem, hc, hpad⟩ := hd.exists_delimiter spaced
  have hblank : ∀ b ∈ pad, isBlank b = true := fun b hb => hpad b hb ▸ by decide
  have hline : key ++ Render.delimiter d spaced ++ first = key ++ pad ++ c :: (pad ++ first) := by
    simp [hdelimiter]
  rw [hline] at hquiet ⊢
  rw [hd.clean_valued hkey hc hquiet, hd.ofCleaned_valued hkey hhead hpad hmem, trim_trimEnd,
    trim_blank_append hblank]
  exact ⟨by simp, rfl⟩

theorem opens_valued (hd : d.Marked) (hkey : Entry.KeyFits d key) (hhead : key.head? ≠ some '[')
    (hfirst : first.trim = first) (hnewline : '\n' ∉ first)
    (hquietKey : Line.Quiet d.inlineMarks true key)
    (hquiet : Line.Quiet d.inlineMarks spaced first) :
    Opens d (.entry key (some first)) (key ++ Render.delimiter d spaced ++ first) := by
  obtain ⟨hne, hstates⟩ := hd.states_valued hkey hhead (hd.quiet_valued hquietKey hquiet)
  obtain ⟨pad, c, hdelimiter, -, hc, hpad⟩ := hd.exists_delimiter spaced
  obtain ⟨k, ks, hcons, hk⟩ := exists_cons_of_trim_eq_self hkey.trim_eq hkey.ne_nil
  refine ⟨?_, ?_, hne, ?_⟩
  · have hfront : '\n' ∉ key ++ pad := by
      have hpadn : '\n' ∉ pad := fun hm => absurd (hpad _ hm) (by decide)
      simp [hkey.newline, hpadn]
    simpa [hdelimiter] using oneLine_valued hfront hpad hc hfirst hnewline
  · rw [hcons]
    exact hk
  · rw [hstates, hfirst]

theorem clean_eq_self (hd : d.Marked) (htrim : row.trim = row)
    (hcomment : ∀ mark ∈ d.commentMarks, ¬mark <+: row)
    (hquiet : Line.Quiet d.inlineMarks true row) : Line.clean d row = row := by
  rw [hd.clean_eq_trim hquiet, htrim]
  rw [htrim]
  exact hd.startsComment_eq_false hcomment

theorem opens_bare (hd : d.Marked) (hkey : Entry.KeyFits d key) (hbare : d.bareKeys = true)
    (hheader : Statement.headerName? key = none)
    (hquiet : Line.Quiet d.inlineMarks true key) : Opens d (.entry key none) key := by
  obtain ⟨k, ks, hcons, hk⟩ := exists_cons_of_trim_eq_self hkey.trim_eq hkey.ne_nil
  have hclean := hd.clean_eq_self hkey.trim_eq hkey.comment hquiet
  have hcut : cut d.delimiters key = none :=
    cut_eq_none_iff.2 fun mark hmark _ => hkey.delimiter mark hmark
  refine ⟨oneLine_of_trim_eq_self hkey.trim_eq hkey.newline, ?_, ?_, ?_⟩
  · rw [hcons]
    exact hk
  · rw [hclean]
    exact hkey.ne_nil
  · rw [hclean, Statement.ofCleaned, hheader]
    simp only [hcut, hbare, if_true]
    rw [Statement.ofKey, hkey.trim_eq, if_neg (by simpa using hkey.ne_nil), hkey.fold_eq]
    rfl

theorem headerName?_headerLine (name : Text) :
    Statement.headerName? (Render.headerLine name) = some name :=
  Statement.headerName?_eq_some_iff.2 rfl

theorem opens_header (hd : d.Marked) (hbracket : ['['] ∉ d.commentMarks) (hname : '\n' ∉ name)
    (hquiet : Line.Quiet d.inlineMarks true (Render.headerLine name)) :
    Opens d (.header name) (Render.headerLine name) := by
  have htrim : (Render.headerLine name).trim = Render.headerLine name := by
    refine trim_eq_self_iff.2 ⟨?_, ?_⟩
    · intro c hc
      cases hc
      decide
    · intro c hc
      rw [Render.headerLine, Option.mem_def, List.getLast?_append_of_ne_nil _ (by simp)] at hc
      cases hc
      decide
  have hclean : Line.clean d (Render.headerLine name) = Render.headerLine name := by
    rw [hd.clean_eq_trim hquiet, htrim]
    rw [htrim, Render.headerLine, List.cons_append,
      Line.startsComment_cons hd.single_commentMarks]
    simpa using hbracket
  refine ⟨oneLine_of_trim_eq_self htrim ?_, ?_, ?_, ?_⟩
  · simp [Render.headerLine, hname]
  · rfl
  · rw [hclean]
    simp [Render.headerLine]
  · rw [hclean, Statement.ofCleaned, headerName?_headerLine]

theorem clean_tab (hd : d.Marked) (hrow : row.trim = row)
    (hcomment : ∀ mark ∈ d.commentMarks, ¬mark <+: row)
    (hquiet : Line.Quiet d.inlineMarks true row) : Line.clean d ('\t' :: row) = row := by
  have htab : trim ('\t' :: row) = row := by rw [trim_cons_blank (by decide), hrow]
  have hmark : ['\t'] ∉ d.inlineMarks := hd.not_mem_inlineMarks_of_isBlank (by decide)
  have hquiet' : Line.Quiet d.inlineMarks true ('\t' :: row) := ⟨fun h => hmark h.2, hquiet⟩
  rw [hd.clean_eq_trim hquiet', htab]
  rw [htab]
  exact hd.startsComment_eq_false hcomment

theorem oneLine_tab (hrow : row.trim = row) (hnewline : '\n' ∉ row) : OneLine ('\t' :: row) := by
  refine ⟨by simp [hnewline], fun hlast => ?_⟩
  cases row with
  | nil => cases hlast
  | cons c rest =>
      exact (oneLine_of_trim_eq_self hrow hnewline).carriageReturn (by simpa using hlast)

end Dialect.Marked

/-! ## What is left of a value -/

/-- What a written value is read as. Behind a blank an inline mark at its start
takes its first row. -/
def Dialect.readBack (d : Dialect) (spaced : Bool) (value : Text) : Text :=
  if spaced = true ∧ Line.startsComment d.inlineMarks value = true then
    value.dropWhile (· ≠ '\n')
  else value

namespace Dialect.Marked

variable {d : Dialect} {key first value : Text} {others : List Text} {spaced : Bool}

theorem forall_ne_newline (hnewline : '\n' ∉ first) : ∀ c ∈ first, decide (c ≠ '\n') = true :=
  fun _ hc => decide_eq_true fun e => hnewline (e ▸ hc)

theorem readBack_row (hnewline : '\n' ∉ first) :
    d.readBack spaced first =
      if spaced = true ∧ Line.startsComment d.inlineMarks first = true then [] else first := by
  rw [readBack, List.dropWhile_eq_nil_iff.2 (forall_ne_newline hnewline)]

theorem readBack_joinLines (hd : d.Marked) (hnewline : '\n' ∉ first) :
    d.readBack spaced (joinLines (first :: others)) =
      joinLines (d.readBack spaced first :: others) := by
  cases others with
  | nil => rfl
  | cons row others =>
      have hline : ['\n'] ∉ d.inlineMarks := hd.not_mem_inlineMarks_of_isBlank (by decide)
      have hstarts : Line.startsComment d.inlineMarks (first ++ '\n' :: joinLines (row :: others)) =
          Line.startsComment d.inlineMarks first := by
        cases first with
        | nil => simp [Line.startsComment_cons hd.single_inlineMarks, hline]
        | cons c rest =>
            rw [List.cons_append, Line.startsComment_cons hd.single_inlineMarks,
              Line.startsComment_cons hd.single_inlineMarks]
      have hdrop : List.dropWhile (· ≠ '\n') (first ++ '\n' :: joinLines (row :: others)) =
          '\n' :: joinLines (row :: others) := by
        rw [List.dropWhile_append_of_pos (forall_ne_newline hnewline),
          List.dropWhile_cons_of_neg (by simp)]
      rw [readBack_row hnewline, joinLines_cons_cons, joinLines_cons_cons, readBack, hstarts, hdrop]
      split
      · rfl
      · rfl

theorem readBack_eq_self_iff (hd : d.Marked) :
    d.readBack spaced value = value ↔
      ¬(spaced = true ∧ Line.startsComment d.inlineMarks value = true) := by
  unfold readBack
  split
  · next hstarts =>
      refine iff_of_false (fun hself => ?_) (not_not.2 hstarts)
      obtain ⟨-, hstarts⟩ := hstarts
      cases value with
      | nil => simp at hstarts
      | cons c rest =>
          rw [Line.startsComment_cons hd.single_inlineMarks, decide_eq_true_iff] at hstarts
          have hc : c ≠ '\n' := by
            rintro rfl
            exact hd.not_mem_inlineMarks_of_isBlank (by decide) hstarts
          -- The mark is no line feed, so it is dropped and what is left is shorter.
          have hlength := congrArg List.length hself
          rw [List.dropWhile_cons_of_pos (by simpa using hc), List.length_cons] at hlength
          have hle := (List.dropWhile_suffix (l := rest) (· ≠ '\n')).length_le
          omega
  · next hstarts => exact iff_of_true rfl hstarts

/-- The mark at the start of the value has a blank before it, so that only the
key and the delimiter are left. -/
theorem opens_commented (hd : d.Marked) (hkey : Entry.KeyFits d key)
    (hhead : key.head? ≠ some '[') (hfirst : first.trim = first) (hnewline : '\n' ∉ first)
    (hquietKey : Line.Quiet d.inlineMarks true key)
    (hstarts : Line.startsComment d.inlineMarks first = true) :
    Opens d (.entry key (some [])) (key ++ Render.delimiter d true ++ first) := by
  -- The line is cleaned as the line of an empty value is, and states what that states.
  have hempty : Opens d (.entry key (some [])) (key ++ Render.delimiter d true ++ []) :=
    hd.opens_valued hkey hhead rfl (by simp) hquietKey (Line.quiet_nil ..)
  have hquiet : Line.Quiet d.inlineMarks true (key ++ Render.delimiter d true ++ []) :=
    hd.quiet_valued hquietKey (Line.quiet_nil ..)
  obtain ⟨c, hprimary, hmem, hc⟩ := hd.exists_primaryDelimiter
  obtain ⟨m, rest, rfl, hmark⟩ : ∃ m rest, first = m :: rest ∧ [m] ∈ d.inlineMarks := by
    cases first with
    | nil => simp at hstarts
    | cons m rest =>
        rw [Line.startsComment_cons hd.single_inlineMarks, decide_eq_true_iff] at hstarts
        exact ⟨m, rest, rfl, hstarts⟩
  have hfront : key ++ Render.delimiter d true ++ [] = key ++ [' ', c] ++ [' '] := by
    simp [Render.delimiter, hprimary]
  have hline : key ++ Render.delimiter d true ++ m :: rest =
      key ++ [' ', c] ++ ' ' :: m :: rest := by
    simp [Render.delimiter, hprimary]
  have hdrop : d.inlineMarks.foldl Line.dropInline (key ++ Render.delimiter d true ++ m :: rest) =
      key ++ Render.delimiter d true ++ [] := by
    rw [hfront] at hquiet
    rw [hline, hfront]
    exact Line.foldl_dropInline_comment hd.single_inlineMarks (by decide) hquiet hmark rest
  have hclean : Line.clean d (key ++ Render.delimiter d true ++ m :: rest) =
      Line.clean d (key ++ Render.delimiter d true ++ []) := by
    rw [Line.clean, Line.clean, hdrop, Line.foldl_dropInline_of_quiet hd.single_inlineMarks hquiet,
      List.append_assoc, List.append_assoc, hd.startsComment_trim_append hkey,
      hd.startsComment_trim_append hkey]
  refine ⟨?_, ?_, ?_, ?_⟩
  · have hspace : '\n' ∉ key ++ [' '] := by simp [hkey.newline]
    have hpad : ∀ b ∈ [' '], b = ' ' := by simp
    simpa [hline] using oneLine_valued hspace hpad hc hfirst hnewline
  · obtain ⟨k, ks, hcons, hk⟩ := exists_cons_of_trim_eq_self hkey.trim_eq hkey.ne_nil
    rw [hcons]
    exact hk
  · rw [hclean]
    exact hempty.clean_ne_nil
  · rw [hclean]
    exact hempty.states

theorem opens_readBack (hd : d.Marked) (hkey : Entry.KeyFits d key) (hhead : key.head? ≠ some '[')
    (hfirst : first.trim = first) (hnewline : '\n' ∉ first)
    (hquietKey : Line.Quiet d.inlineMarks true key)
    (hquiet : Line.Quiet d.inlineMarks false first) :
    Opens d (.entry key (some (d.readBack spaced first)))
      (key ++ Render.delimiter d spaced ++ first) := by
  rw [readBack_row hnewline]
  split
  · next hstarts =>
      obtain ⟨rfl, hstarts⟩ := hstarts
      exact hd.opens_commented hkey hhead hfirst hnewline hquietKey hstarts
  · next hstarts =>
      refine hd.opens_valued hkey hhead hfirst hnewline hquietKey ?_
      cases spaced with
      | false => exact hquiet
      | true =>
          refine Line.quiet_true_iff.2 ⟨hquiet, fun c hc hmark => hstarts ⟨rfl, ?_⟩⟩
          obtain ⟨rest, rfl⟩ := List.head?_eq_some_iff.1 hc
          rw [Line.startsComment_cons hd.single_inlineMarks, decide_eq_true_iff]
          exact hmark

end Dialect.Marked

/-! ## Whole stores -/

namespace Entry

variable {d : Dialect} {key value first : Text} {others : List Text}

theorem valueFits_joinLines (hfirst : first.trim = first ∧ '\n' ∉ first)
    (hothers : ∀ row ∈ others, row.trim = row ∧ '\n' ∉ row ∧
      ∀ mark ∈ d.commentMarks, ¬mark <+: row)
    (hlast : ∀ row ∈ others.getLast?, row ≠ []) : ValueFits d (joinLines (first :: others)) := by
  have hrows : ∀ row ∈ first :: others, row.trim = row ∧ '\n' ∉ row := by
    intro row hrow
    rcases List.mem_cons.1 hrow with rfl | hmem
    · exact hfirst
    · exact ⟨(hothers row hmem).1, (hothers row hmem).2.1⟩
  have hsplit : (joinLines (first :: others)).splitOn '\n' = first :: others :=
    splitOn_joinLines (fun row hrow => (hrows row hrow).2) (by simp)
  refine ⟨?_, ?_, ?_⟩
  · rw [hsplit]
    exact fun row hrow => (hrows row hrow).1
  · rw [hsplit]
    exact fun row hrow => (hothers row hrow).2.2
  · rw [hsplit]
    exact hlast

theorem readAs_bare (hd : d.Marked) (hkey : KeyFits d key) (hbare : d.bareKeys = true)
    (hheader : Statement.headerName? key = none) (hquiet : Line.Quiet d.inlineMarks true key)
    (spaced : Bool) : ReadAs d spaced key none none :=
  .bare hbare (hd.opens_bare hkey hbare hheader hquiet)

theorem readAs_valued (hd : d.Marked) (hkey : KeyFits d key) (hhead : key.head? ≠ some '[')
    (hvalue : ValueFits d value) (hquietKey : Line.Quiet d.inlineMarks true key)
    (hquiet : Line.Quiet d.inlineMarks false value) (spaced : Bool) :
    ReadAs d spaced key (some value) (some (d.readBack spaced value)) := by
  obtain ⟨first, others, hsplit⟩ := List.exists_cons_of_ne_nil (List.splitOn_ne_nil '\n' value)
  have hrows : ∀ row ∈ first :: others, '\n' ∉ row := by
    intro row hrow hmem
    rw [← hsplit] at hrow
    exact newline_not_mem_of_mem_splitOn hrow hmem
  obtain ⟨htrim, hcomment, hlast⟩ := hvalue
  rw [hsplit] at htrim hcomment hlast
  rw [← joinLines_splitOn value, hsplit] at hquiet ⊢
  obtain ⟨hquietFirst, hquietRows⟩ := (Line.quiet_joinLines hd.isBlank_inlineMarks).1 hquiet
  have hnewline := hrows first List.mem_cons_self
  have hfirst := htrim first List.mem_cons_self
  have hothers : ∀ row ∈ others, trim row = row := fun row hrow =>
    htrim row (List.mem_cons_of_mem _ hrow)
  have hleft : trim (d.readBack spaced first) = d.readBack spaced first := by
    rw [Dialect.Marked.readBack_row hnewline]
    split
    · rfl
    · exact hfirst
  rw [hd.readBack_joinLines hnewline]
  refine .valued (Dialect.Marked.keyFlaw?_eq_none hkey hhead) ?_ ?_ ?_ ?_
  · exact hd.opens_readBack hkey hhead hfirst hnewline hquietKey hquietFirst
  · exact fun row hrow =>
      Dialect.Marked.oneLine_tab (hothers row hrow) (hrows row (List.mem_cons_of_mem _ hrow))
  · exact fun row hrow => hd.clean_tab (hothers row hrow) (hcomment row hrow) (hquietRows row hrow)
  · exact trimEnd_joinLines hleft hothers hlast

end Entry

namespace Store

variable {d : Dialect} {spaced : Bool} {f : Option Text → Option Text} {s : Store}

theorem mem_view_of_mem_headed {part : Text × Entries} (h : part ∈ s.headed) : part ∈ s.view := by
  rcases List.mem_append.1 h with hmem | hmem
  · exact List.mem_append_left _ hmem
  · exact List.mem_append_right _ (List.mem_filter.1 hmem).1

theorem exists_mem_view_of_mem_defaults {pair : Text × Option Text} (h : pair ∈ s.defaults) :
    (s.defaultName, s.defaults) ∈ s.view := by
  refine List.mem_append_left _ ?_
  rw [if_neg (by simpa using List.ne_nil_of_mem h)]
  exact List.mem_singleton_self _

theorem readAs_of_view (hd : d.Marked)
    (hheader : ∀ part ∈ s.headed, ['['] ∉ d.commentMarks ∧ '\n' ∉ part.1 ∧
      Line.Quiet d.inlineMarks true (Render.headerLine part.1))
    (h : ∀ part ∈ s.view, ∀ pair ∈ part.2, Entry.ReadAs d spaced pair.1 pair.2 (f pair.2)) :
    s.ReadAs d spaced f := by
  refine ⟨?_, ?_, ?_⟩
  · intro pair hpair
    exact h _ (exists_mem_view_of_mem_defaults hpair) pair hpair
  · intro part hpart
    exact h part (List.mem_append_right _ hpart)
  · intro part hpart
    obtain ⟨hbracket, hname, hquiet⟩ := hheader part hpart
    exact hd.opens_header hbracket hname hquiet

end Store

end Ini
