import Ini.Proofs.Items
import Ini.Proofs.Text.Lines
import Ini.Proofs.Values

/-!
# What is written spells what is stored

The writer puts a store on lines, and the cutting makes items of lines. In
between stands `Spells`: some lines state some statements, whatever stands
behind them. Behind an entry there may be the next entry, the blank line that
ends a section, or nothing, and a blank line is taken into the value before it
and trimmed off again; so `Spells` lets blank lines follow, and then only lines
that continue nothing. In this form the pieces of a text can be put together,
and a condition on single lines is carried from the entries up to the whole
store in `Store.exists_render`. That condition, `Store.ReadAs`, says which value
is stated where a value is written. If it is that same value everywhere, the
store is `Store.Legible`.

Nothing here depends on how a line is cleaned or where it is cut. That is the
business of those who show a store legible.
-/

namespace Ini

open Text

/-! ## Statements -/

namespace Item

variable {d : Dialect} {raw key first : Text} {rest : List Text} {statement : Statement}

/-- What the items cut from some lines state. -/
def statements (d : Dialect) (lines : List Text) : List Statement :=
  (cut d 1 lines).map Item.statement

/-- The numbering does not touch the statements. -/
theorem map_statement_cut (number : Nat) (lines : List Text) :
    ∀ other, (cut d number lines).map Item.statement = (cut d other lines).map Item.statement := by
  fun_induction cut d number lines with
  | case1 number =>
      intro other
      rw [cut]
  | case2 number raw rest hblank ih =>
      intro other
      rw [ih (other + 1), cut, if_pos hblank]
  | case3 number raw rest hblank key first hs run ih =>
      intro other
      conv => rhs; rw [cut, if_neg hblank, hs]
      simp only [List.map_cons]
      rw [ih (other + 1 + run.length)]
  | case4 number raw rest hblank hopen ih =>
      intro other
      conv => rhs; rw [cut, if_neg hblank]
      split
      · next key first hs => exact absurd hs (hopen key first)
      · rw [List.map_cons, List.map_cons, ih (other + 1)]

@[simp] theorem statements_nil (d : Dialect) : statements d [] = [] := by
  simp [statements, cut]

theorem statements_blank (hblank : Line.clean d raw = []) (rest : List Text) :
    statements d (raw :: rest) = statements d rest := by
  rw [statements, cut, if_pos (by simp [hblank]), map_statement_cut _ _ 1, statements]

theorem statements_value (hraw : Line.clean d raw ≠ [])
    (hs : Statement.ofCleaned d (Line.clean d raw) = .entry key (some first)) (rest : List Text) :
    statements d (raw :: rest) =
      .entry key (some (whole d first (rest.takeWhile (continues d)))) ::
        statements d (rest.dropWhile (continues d)) := by
  rw [statements, cut, if_neg (by simpa using hraw), hs]
  simp only [List.map_cons]
  rw [map_statement_cut _ _ 1, statements]

theorem statements_cons (hraw : Line.clean d raw ≠ [])
    (hs : Statement.ofCleaned d (Line.clean d raw) = statement)
    (hopen : ∀ key first, statement ≠ .entry key (some first)) (rest : List Text) :
    statements d (raw :: rest) = statement :: statements d rest := by
  rw [statements, cut, if_neg (by simpa using hraw), hs]
  split
  · next key first => exact absurd rfl (hopen key first)
  · rw [List.map_cons, map_statement_cut _ rest 1, statements]

end Item

/-! ## Lines that spell statements -/

theorem Line.clean_nil (d : Dialect) : Line.clean d [] = [] := by
  have hdrop : ∀ marks : List Text, marks.foldl Line.dropInline [] = [] := by
    intro marks
    induction marks with
    | nil => rfl
    | cons mark marks ih =>
        have hmark : Line.dropInline [] mark = [] := by
          unfold Line.dropInline
          split <;> simp [Line.beforeComment]
        rw [List.foldl_cons, hmark, ih]
  simp [Line.clean, hdrop, Line.startsComment, Text.markAtStart]

/-- A line that begins this statement, whatever stands before it. -/
structure Opens (d : Dialect) (statement : Statement) (raw : Text) : Prop where
  oneLine : OneLine raw
  indented : raw.indented = false
  clean_ne_nil : Line.clean d raw ≠ []
  states : Statement.ofCleaned d (Line.clean d raw) = statement

theorem Opens.continues {d : Dialect} {statement : Statement} {raw : Text}
    (h : Opens d statement raw) : Item.continues d raw = false := by
  simp [Item.continues, h.clean_ne_nil, h.indented]

/-- The lines state these statements, whatever blank lines stand behind them and
whatever other lines behind those, if these begin with a statement. -/
structure Spells (d : Dialect) (lines : List Text) (statements : List Statement) : Prop where
  oneLine : ∀ row ∈ lines, OneLine row
  head : ∀ raw ∈ lines.head?, Item.continues d raw = false
  reads : ∀ blanks tail : List Text, (∀ row ∈ blanks, row = []) →
    (∀ raw ∈ tail.head?, Item.continues d raw = false) →
    Item.statements d (lines ++ (blanks ++ tail)) = statements ++ Item.statements d tail

namespace Spells

variable {d : Dialect} {lines front : List Text} {statements before : List Statement}

theorem nil (d : Dialect) : Spells d [] [] := by
  refine ⟨by simp, by simp, fun blanks tail hblanks _ => ?_⟩
  simp only [List.nil_append]
  induction blanks with
  | nil => rfl
  | cons row blanks ih =>
      have hrow : Line.clean d row = [] := by rw [hblanks row (by simp), Line.clean_nil]
      rw [List.cons_append, Item.statements_blank hrow]
      exact ih fun line hline => hblanks line (by simp [hline])

theorem statements_eq (h : Spells d lines statements) : Item.statements d lines = statements := by
  simpa using h.reads [] [] (by simp) (by simp)

theorem append (h : Spells d front before) (h' : Spells d lines statements) :
    Spells d (front ++ lines) (before ++ statements) := by
  refine ⟨?_, ?_, fun blanks tail hblanks htail => ?_⟩
  · intro row hrow
    rcases List.mem_append.1 hrow with hmem | hmem
    · exact h.oneLine row hmem
    · exact h'.oneLine row hmem
  · cases front with
    | nil => exact h'.head
    | cons raw front => exact h.head
  · cases hlines : lines with
    | nil =>
        have hnone : statements = [] := by
          have heq := h'.statements_eq
          rw [hlines, Item.statements_nil] at heq
          exact heq.symm
        simpa [hnone] using h.reads blanks tail hblanks htail
    | cons raw lines =>
        have hhead : ∀ line ∈ (raw :: lines ++ (blanks ++ tail)).head?,
            Item.continues d line = false := by
          intro line hline
          exact h'.head line (by simpa [hlines] using hline)
        have h1 := h.reads [] _ (by simp) hhead
        have h2 := h'.reads blanks tail hblanks htail
        rw [hlines] at h2
        rw [List.nil_append, h2] at h1
        rw [List.append_assoc, h1, List.append_assoc]

theorem append_nil (h : Spells d lines statements) (hne : lines ≠ []) :
    Spells d (lines ++ [[]]) statements := by
  refine ⟨?_, ?_, fun blanks tail hblanks htail => ?_⟩
  · intro row hrow
    rcases List.mem_append.1 hrow with hmem | hmem
    · exact h.oneLine row hmem
    · obtain rfl := List.mem_singleton.1 hmem
      exact ⟨by simp, by simp⟩
  · obtain ⟨raw, rest, rfl⟩ := List.exists_cons_of_ne_nil hne
    exact h.head
  · have hblanks' : ∀ row ∈ [] :: blanks, row = [] := by simpa using hblanks
    simpa using h.reads ([] :: blanks) tail hblanks' htail

theorem single {statement : Statement} {raw : Text} (h : Opens d statement raw)
    (hopen : ∀ key first, statement ≠ .entry key (some first)) : Spells d [raw] [statement] := by
  refine ⟨by simpa using h.oneLine, by simpa using h.continues, fun blanks tail hblanks htail => ?_⟩
  rw [List.singleton_append, Item.statements_cons h.clean_ne_nil h.states hopen]
  have hrest := (nil d).reads blanks tail hblanks htail
  rw [List.nil_append, List.nil_append] at hrest
  rw [hrest, List.singleton_append]

/-- A value on its lines: all but the first are behind a tab. -/
theorem value {key first raw : Text} {others : List Text}
    (h : Opens d (.entry key (some first)) raw)
    (hline : ∀ row ∈ others, OneLine ('\t' :: row))
    (hclean : ∀ row ∈ others, Line.clean d ('\t' :: row) = row)
    (htrim : (joinLines (first :: others)).trimEnd = joinLines (first :: others)) :
    Spells d (raw :: others.map ('\t' :: ·))
      [.entry key (some (joinLines (first :: others)))] := by
  refine ⟨?_, by simpa using h.continues, fun blanks tail hblanks htail => ?_⟩
  · intro row hrow
    rcases List.mem_cons.1 hrow with rfl | hmem
    · exact h.oneLine
    · obtain ⟨other, hother, rfl⟩ := List.mem_map.1 hmem
      exact hline other hother
  -- The value takes in its own rows and the blank lines behind them, which are
  -- trimmed off again.
  · have hrun : ∀ row ∈ others.map ('\t' :: ·) ++ blanks, Item.continues d row = true := by
      intro row hrow
      rcases List.mem_append.1 hrow with hmem | hmem
      · obtain ⟨other, -, rfl⟩ := List.mem_map.1 hmem
        simp [Item.continues, Text.indented, show isBlank '\t' = true by decide]
      · rw [hblanks row hmem]
        simp [Item.continues, Line.clean_nil]
    have htake : tail.takeWhile (Item.continues d) = [] ∧
        tail.dropWhile (Item.continues d) = tail := by
      cases tail with
      | nil => exact ⟨rfl, rfl⟩
      | cons raw tail => simp [htail raw rfl]
    have hothers : (others.map ('\t' :: ·)).map (Line.clean d) = others := by
      rw [List.map_map]
      exact (List.map_congr_left hclean).trans (List.map_id others)
    have hempty : ∀ row ∈ blanks.map (Line.clean d), row = [] := by
      intro row hrow
      obtain ⟨blank, hblank, rfl⟩ := List.mem_map.1 hrow
      rw [hblanks blank hblank, Line.clean_nil]
    rw [List.cons_append, ← List.append_assoc, Item.statements_value h.clean_ne_nil h.states,
      List.takeWhile_append_of_pos hrun, List.dropWhile_append_of_pos hrun, htake.1, htake.2]
    rw [Item.whole, List.append_nil, List.map_append, hothers, trimEnd_joinLines_append hempty,
      htrim, List.singleton_append]

end Spells

/-! ## What the writer puts on lines -/

/-- An entry that the writer writes and whose lines state it with the second of
these values. -/
inductive Entry.ReadAs (d : Dialect) (spaced : Bool) (key : Text) :
    Option Text → Option Text → Prop
  | bare (hbare : d.bareKeys = true) (hopens : Opens d (.entry key none) key) :
      ReadAs d spaced key none none
  | valued {written first : Text} {others : List Text} (hkey : Render.keyFlaw? d key = none)
      (hopens : Opens d (.entry key (some first)) (key ++ Render.delimiter d spaced ++ written))
      (hline : ∀ row ∈ others, OneLine ('\t' :: row))
      (hclean : ∀ row ∈ others, Line.clean d ('\t' :: row) = row)
      (htrim : (joinLines (first :: others)).trimEnd = joinLines (first :: others)) :
      ReadAs d spaced key (some (joinLines (written :: others)))
        (some (joinLines (first :: others)))

/-- An entry that the writer writes and whose lines say so. -/
abbrev Entry.Legible (d : Dialect) (spaced : Bool) (key : Text) (value : Option Text) : Prop :=
  Entry.ReadAs d spaced key value value

/-- The statement that an entry makes. -/
def Statement.ofEntry (pair : Text × Option Text) : Statement := .entry pair.1 pair.2

namespace Render

variable {d : Dialect} {spaced : Bool} {f : Option Text → Option Text}

theorem value_of_not_mem {text : Text} (h : '\n' ∉ text) : value text = text := by
  induction text with
  | nil => rfl
  | cons c rest ih =>
      have hc : c ≠ '\n' := fun e => h (e ▸ List.mem_cons_self)
      have hrest := ih fun hm => h (List.mem_cons_of_mem _ hm)
      rw [value] at hrest ⊢
      rw [List.flatMap_cons, if_neg hc, hrest]
      rfl

theorem value_joinLines {others : List Text} : ∀ {first : Text}, '\n' ∉ first →
    (∀ row ∈ others, '\n' ∉ row) →
    value (joinLines (first :: others)) ++ ['\n'] =
      unlines (first :: others.map ('\t' :: ·)) := by
  induction others with
  | nil =>
      intro first hfirst _
      simp [joinLines, value_of_not_mem hfirst]
  | cons row others ih =>
      intro first hfirst hothers
      have hrest := ih (hothers row (by simp)) fun line hline => hothers line (by simp [hline])
      have happend : ∀ front back : Text, value (front ++ back) = value front ++ value back := by
        simp [value]
      have hnewline : value ['\n'] = ['\n', '\t'] := rfl
      rw [joinLines_cons_cons, ← List.singleton_append, happend, happend, hnewline,
        value_of_not_mem hfirst, unlines_cons, List.map_cons, unlines_cons]
      rw [unlines_cons] at hrest
      simp [hrest]

theorem exists_entry {key : Text} {content read : Option Text}
    (h : Entry.ReadAs d spaced key content read) :
    ∃ lines, lines ≠ [] ∧ entry d spaced key content = .ok (unlines lines) ∧
      Spells d lines [.entry key read] := by
  cases h with
  | bare hbare hopens =>
      refine ⟨[key], by simp, ?_, Spells.single hopens (by simp)⟩
      simp [entry, hbare]
  | @valued written first others hkey hopens hline hclean htrim =>
      refine ⟨(key ++ delimiter d spaced ++ written) :: others.map ('\t' :: ·), by simp, ?_,
        Spells.value hopens hline hclean htrim⟩
      have hwritten : '\n' ∉ written := fun hm => hopens.oneLine.newline (by simp [hm])
      have hothers : ∀ row ∈ others, '\n' ∉ row := fun row hrow hm =>
        (hline row hrow).newline (by simp [hm])
      have hvalue := value_joinLines hwritten hothers
      rw [unlines_cons] at hvalue
      simp [entry, hkey, hvalue]

theorem exists_entries {content : Entries}
    (h : ∀ pair ∈ content, Entry.ReadAs d spaced pair.1 pair.2 (f pair.2)) :
    ∃ lines, (content ≠ [] → lines ≠ []) ∧ entries d spaced content = .ok (unlines lines) ∧
      Spells d lines ((content.mapValues f).map Statement.ofEntry) := by
  induction content with
  | nil => exact ⟨[], by simp, rfl, Spells.nil d⟩
  | cons pair rest ih =>
      obtain ⟨key, value⟩ := pair
      obtain ⟨front, hne, hentry, hfront⟩ := exists_entry (h (key, value) (by simp))
      obtain ⟨lines, -, hentries, hlines⟩ := ih fun other hother => h other (by simp [hother])
      refine ⟨front ++ lines, by simp [hne], ?_, hfront.append hlines⟩
      simp only [entries, hentry, hentries, unlines_append]
      rfl

theorem exists_block {front : List Text} {before : List Statement} {content : Entries}
    (hfront : Spells d front before)
    (h : ∀ pair ∈ content, Entry.ReadAs d spaced pair.1 pair.2 (f pair.2))
    (hne : front ≠ [] ∨ content ≠ []) :
    ∃ lines, block d spaced (unlines front) content = .ok (unlines lines) ∧
      Spells d lines (before ++ (content.mapValues f).map Statement.ofEntry) := by
  obtain ⟨lines, hlines, hentries, hspells⟩ := exists_entries h
  have hboth : front ++ lines ≠ [] := by
    rcases hne with hne | hne
    · simp [hne]
    · simp [hlines hne]
  refine ⟨front ++ lines ++ [[]], ?_, (hfront.append hspells).append_nil hboth⟩
  simp only [block, hentries, unlines_append, unlines_cons, unlines_nil]
  rfl

/-- The line of a header. -/
def headerLine (name : Text) : Text := '[' :: name ++ [']']

theorem header_eq_unlines (name : Text) : header name = unlines [headerLine name] := by
  simp [header, headerLine]

theorem exists_blocks {sections : Table Text Entries}
    (hheader : ∀ part ∈ sections, Opens d (.header part.1) (headerLine part.1))
    (h : ∀ part ∈ sections, ∀ pair ∈ part.2, Entry.ReadAs d spaced pair.1 pair.2 (f pair.2)) :
    ∃ lines, blocks d spaced sections = .ok (unlines lines) ∧
      Spells d lines ((sections.mapValues (Table.mapValues f)).flatMap fun part =>
        .header part.1 :: part.2.map Statement.ofEntry) := by
  induction sections with
  | nil => exact ⟨[], rfl, Spells.nil d⟩
  | cons part rest ih =>
      obtain ⟨name, content⟩ := part
      have hfront := Spells.single (hheader (name, content) (by simp)) (by simp)
      obtain ⟨front, hblock, hspells⟩ :=
        exists_block hfront (h (name, content) (by simp)) (.inl (by simp))
      obtain ⟨lines, hblocks, hrest⟩ := ih (fun other hother => hheader other (by simp [hother]))
        fun other hother => h other (by simp [hother])
      refine ⟨front ++ lines, ?_, by simpa using hspells.append hrest⟩
      rw [← header_eq_unlines] at hblock
      simp only [blocks, hblock, hblocks, unlines_append]
      rfl

end Render

namespace Store

variable {d : Dialect} {spaced : Bool} {f : Option Text → Option Text} {s : Store}

/-- A store whose lines, written in this dialect, say what it holds, but with
`f` of each value. -/
structure ReadAs (d : Dialect) (spaced : Bool) (f : Option Text → Option Text) (s : Store) :
    Prop where
  defaults : ∀ pair ∈ s.defaults, Entry.ReadAs d spaced pair.1 pair.2 (f pair.2)
  sections : ∀ part ∈ s.sections, ∀ pair ∈ part.2,
    Entry.ReadAs d spaced pair.1 pair.2 (f pair.2)
  header : ∀ part ∈ s.headed, Opens d (.header part.1) (Render.headerLine part.1)

/-- A store whose lines, written in this dialect, say what it holds. -/
abbrev Legible (d : Dialect) (spaced : Bool) (s : Store) : Prop := s.ReadAs d spaced id

/-- What the whole store states: the entries without a header, then the rest. -/
def statements (s : Store) : List Statement :=
  ((s.entries? unnamedSection).getD []).map Statement.ofEntry ++
    s.headed.flatMap fun part => .header part.1 :: part.2.map Statement.ofEntry

theorem ReadAs.entries? (h : s.ReadAs d spaced f) {name : Text} {content : Entries}
    (hcontent : s.entries? name = some content) :
    ∀ pair ∈ content, Entry.ReadAs d spaced pair.1 pair.2 (f pair.2) := by
  unfold Store.entries? at hcontent
  split at hcontent
  · cases hcontent
    exact h.defaults
  · exact h.sections _ (Table.mem_of_find?_eq_some hcontent)

theorem ReadAs.headed (h : s.ReadAs d spaced f) :
    ∀ part ∈ s.headed, ∀ pair ∈ part.2, Entry.ReadAs d spaced pair.1 pair.2 (f pair.2) := by
  intro part hpart
  rcases List.mem_append.1 hpart with hmem | hmem
  · split at hmem
    · cases hmem
    · obtain rfl := List.mem_singleton.1 hmem
      exact h.defaults
  · exact h.sections part (List.mem_filter.1 hmem).1

theorem ReadAs.exists_render (h : s.ReadAs d spaced f)
    (hne : ∀ content, s.entries? unnamedSection = some content → content ≠ []) :
    ∃ lines, s.render d spaced = .ok (unlines lines) ∧
      Spells d lines (s.mapValues f).statements := by
  obtain ⟨lines, hblocks, hspells⟩ := Render.exists_blocks h.header h.headed
  rw [statements, entries?_mapValues, headed_mapValues]
  cases hunnamed : s.entries? unnamedSection with
  | none =>
      refine ⟨lines, ?_, hspells⟩
      simp only [render, renderUnnamed, hunnamed, hblocks]
      rfl
  | some content =>
      obtain ⟨front, hblock, hfront⟩ := Render.exists_block (Spells.nil d) (h.entries? hunnamed)
        (.inr (hne content hunnamed))
      refine ⟨front ++ lines, ?_, hfront.append hspells⟩
      rw [unlines_nil] at hblock
      simp only [render, renderUnnamed, hunnamed, hblock, hblocks, unlines_append]
      rfl

end Store

end Ini
