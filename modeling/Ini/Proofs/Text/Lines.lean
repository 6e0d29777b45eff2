import Ini.Proofs.Text.Blank
import Mathlib.Data.List.Induction

/-!
# Lines

A text made of lines with a line feed behind each is cut into these lines
again, unless a line holds a line feed or ends in a carriage return: the one
would be two lines, the other would lose its end. The rows of a value are a
second matter. They have line feeds only between them, and the blanks at the
end of the value take the empty rows there with them.
-/

namespace Ini.Text

variable {text row first : Text} {rows rest : List Text}

/-- The lines one after the other, with a line feed behind each. -/
def unlines (rows : List Text) : Text := rows.flatMap (· ++ ['\n'])

/-- A line that is read as it was written. -/
structure OneLine (row : Text) : Prop where
  newline : '\n' ∉ row
  carriageReturn : row.getLast? ≠ some '\r'

@[simp] theorem unlines_nil : unlines [] = [] := rfl

@[simp] theorem unlines_cons (row : Text) (rows : List Text) :
    unlines (row :: rows) = row ++ '\n' :: unlines rows := by
  simp [unlines]

@[simp] theorem unlines_append (front rows : List Text) :
    unlines (front ++ rows) = unlines front ++ unlines rows := by
  simp [unlines]

theorem oneLine_of_trim_eq_self (h : row.trim = row) (hrow : '\n' ∉ row) : OneLine row := by
  refine ⟨hrow, fun hlast => ?_⟩
  have hblank := (trim_eq_self_iff.1 h).2 '\r' hlast
  exact absurd hblank (by decide)

theorem lines_cons {c : Char} (hc : c ≠ '\n') {text : Text}
    (hcr : c = '\r' → text.head? ≠ some '\n') : lines (c :: text) = consLine c (lines text) := by
  rw [lines.eq_def]
  split
  · contradiction
  · next heq => exact absurd (List.cons.inj heq).1 hc
  · next heq =>
      obtain ⟨rfl, rfl⟩ := List.cons.inj heq
      exact absurd rfl (hcr rfl)
  · next heq =>
      obtain ⟨rfl, rfl⟩ := List.cons.inj heq
      rfl

/-- A line without the carriage return at its end. -/
def chomp (row : Text) : Text := if row.getLast? = some '\r' then row.dropLast else row

theorem OneLine.chomp_eq (h : OneLine row) : row.chomp = row := if_neg h.carriageReturn

theorem trim_chomp (row : Text) : row.chomp.trim = row.trim := by
  unfold chomp
  split
  · next hlast =>
      have hpad : ∀ c ∈ ['\r'], isBlank c = true := by
        intro c hc
        rw [List.mem_singleton.1 hc]
        decide
      conv => rhs; rw [← List.dropLast_append_getLast? _ hlast, trim_append_of_blank hpad]
  · rfl

/-- A text is a single part, or a first part, a separator and a text behind it. -/
theorem separator_induction (separates : Char → Bool) {motive : Text → Prop}
    (part : ∀ text, (∀ c ∈ text, separates c = false) → motive text)
    (append : ∀ front c back, (∀ b ∈ front, separates b = false) → separates c = true →
      motive back → motive (front ++ c :: back)) (text : Text) : motive text := by
  induction hlength : text.length using Nat.strong_induction_on generalizing text with
  | _ length ih =>
      cases hfind : text.find? separates with
      | none => exact part text fun c hc => by simpa using List.find?_eq_none.1 hfind c hc
      | some c =>
          obtain ⟨hc, front, back, rfl, hfront⟩ := List.find?_eq_some_iff_append.1 hfind
          refine append front c back (fun b hb => by simpa using hfront b hb) hc ?_
          exact ih back.length (by simp [← hlength]; omega) back rfl

/-- Induction on the line feeds of a text. -/
theorem newline_induction {motive : Text → Prop} (last : ∀ row, '\n' ∉ row → motive row)
    (line : ∀ row text, '\n' ∉ row → motive text → motive (row ++ '\n' :: text)) (text : Text) :
    motive text := by
  have hfree : ∀ {row : Text}, (∀ c ∈ row, (c == '\n') = false) → '\n' ∉ row :=
    fun hrow hmem => absurd (hrow _ hmem) (by decide)
  induction text using separator_induction (· == '\n') with
  | part row hrow => exact last row (hfree hrow)
  | append row c text hrow hc ih =>
      rw [eq_of_beq hc]
      exact line row text (hfree hrow) ih

/-- What stands before a line feed is a line, less a carriage return. -/
theorem lines_append_cons (hrow : '\n' ∉ row) (text : Text) :
    lines (row ++ '\n' :: text) = row.chomp :: lines text := by
  induction row with
  | nil => rfl
  | cons c rest ih =>
      have hc : c ≠ '\n' := (List.ne_of_not_mem_cons hrow).symm
      have hrest := List.not_mem_of_not_mem_cons hrow
      cases rest with
      | nil =>
          by_cases hcr : c = '\r'
          · subst hcr
            rfl
          · rw [List.singleton_append, lines_cons hc fun e => absurd e hcr]
            simp [lines, consLine, chomp, hcr]
      | cons b rest =>
          have hb : b ≠ '\n' := (List.ne_of_not_mem_cons hrest).symm
          have hchomp : chomp (c :: b :: rest) = c :: chomp (b :: rest) := by
            unfold chomp
            rw [List.getLast?_cons_cons]
            split <;> rfl
          rw [List.cons_append, lines_cons hc fun _ => by simpa using hb, ih hrest, hchomp]
          rfl

theorem lines_append_newline (hrow : OneLine row) (text : Text) :
    lines (row ++ '\n' :: text) = row :: lines text := by
  rw [lines_append_cons hrow.newline, hrow.chomp_eq]

/-- Behind a line feed the lines go on as if nothing stood before it. -/
theorem lines_append_newline_append (text rest : Text) :
    lines (text ++ '\n' :: rest) = lines (text ++ ['\n']) ++ lines rest := by
  induction text using newline_induction with
  | last row hrow =>
      rw [lines_append_cons hrow, lines_append_cons hrow]
      rfl
  | line row text hrow ih =>
      rw [List.append_assoc, List.append_assoc, List.cons_append, List.cons_append,
        lines_append_cons hrow, lines_append_cons hrow, ih, List.cons_append]

theorem lines_append {text : Text} (h : text = [] ∨ text.getLast? = some '\n') (rest : Text) :
    lines (text ++ rest) = lines text ++ lines rest := by
  rcases h with rfl | hlast
  · rfl
  · rw [← List.dropLast_append_getLast? _ hlast, List.append_assoc, List.singleton_append,
      lines_append_newline_append]

theorem lines_unlines (hrows : ∀ row ∈ rows, OneLine row) : lines (unlines rows) = rows := by
  induction rows with
  | nil => rfl
  | cons row rest ih =>
      rw [unlines_cons, lines_append_newline (hrows row (by simp)),
        ih fun line hline => hrows line (by simp [hline])]

theorem newline_not_mem_of_mem_lines (hrow : row ∈ lines text) : '\n' ∉ row := by
  fun_induction lines text generalizing row with
  | case1 => cases hrow
  | case2 rest ih =>
      rcases List.mem_cons.1 hrow with rfl | hmem
      · simp
      · exact ih hmem
  | case3 rest ih =>
      rcases List.mem_cons.1 hrow with rfl | hmem
      · simp
      · exact ih hmem
  | case4 c rest hnewline _ ih =>
      have hc : '\n' ≠ c := fun e => hnewline e.symm
      cases hlines : lines rest with
      | nil =>
          rw [hlines, consLine, List.mem_singleton] at hrow
          simp [hrow, hc]
      | cons line lines =>
          rw [hlines, consLine] at hrow
          rw [hlines] at ih
          rcases List.mem_cons.1 hrow with rfl | hmem
          · simp [hc, ih List.mem_cons_self]
          · exact ih (List.mem_cons_of_mem _ hmem)

/-! ## Parts of a text -/

/-- The part stands in the text and begins a line there. -/
def Holds (text part : Text) : Prop :=
  ∃ front back, text = unlines front ++ part ++ back

namespace Holds

variable {text part more : Text}

theorem refl (text : Text) : text.Holds text := ⟨[], [], by simp⟩

theorem append_right (h : text.Holds part) (more : Text) : Holds (text ++ more) part := by
  obtain ⟨front, back, rfl⟩ := h
  exact ⟨front, back ++ more, by simp⟩

theorem append_left (h : text.Holds part) (front : List Text) :
    Holds (unlines front ++ text) part := by
  obtain ⟨middle, back, rfl⟩ := h
  exact ⟨front ++ middle, back, by simp⟩

end Holds

theorem lines_unlines_append (front : List Text) (text : Text) :
    lines (unlines front ++ text) = lines (unlines front) ++ lines text := by
  rcases List.eq_nil_or_concat front with rfl | ⟨init, row, rfl⟩
  · rfl
  · have hrow : unlines (init.concat row) = unlines init ++ row ++ ['\n'] := by simp
    rw [hrow, List.append_assoc _ ['\n'], List.singleton_append, lines_append_newline_append]

/-- The lines of the part are lines of the text. -/
theorem Holds.lines_infix {text : Text} {rows : List Text} (h : text.Holds (unlines rows)) :
    lines (unlines rows) <:+: lines text := by
  obtain ⟨front, back, rfl⟩ := h
  refine ⟨lines (unlines front), lines back, ?_⟩
  rw [← unlines_append, lines_unlines_append, unlines_append, lines_unlines_append]

/-! ## The rows of a value -/

theorem joinLines_eq_intercalate (rows : List Text) :
    joinLines rows = ['\n'].intercalate rows := by
  fun_induction joinLines rows with
  | case1 => rfl
  | case2 line => simp
  | case3 line rest hrest ih => simp [List.intercalate_cons_of_ne_nil hrest, ih]

theorem joinLines_splitOn (text : Text) : joinLines (text.splitOn '\n') = text := by
  rw [joinLines_eq_intercalate, List.intercalate_splitOn]

theorem newline_not_mem_of_mem_splitOn (hrow : row ∈ text.splitOn '\n') : '\n' ∉ row := by
  rw [List.splitOn] at hrow
  induction text generalizing row with
  | nil =>
      rw [List.splitOnP_nil, List.mem_singleton] at hrow
      simp [hrow]
  | cons c rest ih =>
      rw [List.splitOnP_cons_eq_if_modifyHead] at hrow
      split at hrow
      · rcases List.mem_cons.1 hrow with rfl | hmem
        · simp
        · exact ih hmem
      · next hc =>
          have hne : '\n' ≠ c := fun e => hc (by simp [← e])
          obtain ⟨first, others, hsplit⟩ :=
            List.exists_cons_of_ne_nil (List.splitOnP_ne_nil (· == '\n') rest)
          rw [hsplit] at ih hrow
          rcases List.mem_cons.1 hrow with rfl | hmem
          · simp [hne, ih List.mem_cons_self]
          · exact ih (List.mem_cons_of_mem _ hmem)

theorem splitOn_joinLines (hrows : ∀ row ∈ rows, '\n' ∉ row) (hne : rows ≠ []) :
    (joinLines rows).splitOn '\n' = rows := by
  rw [joinLines_eq_intercalate, List.splitOn_intercalate '\n' hrows hne]

theorem joinLines_cons_cons (first row : Text) (rest : List Text) :
    joinLines (first :: row :: rest) = first ++ '\n' :: joinLines (row :: rest) := rfl

theorem joinLines_concat (first : Text) (rest : List Text) (row : Text) :
    joinLines (first :: (rest ++ [row])) = joinLines (first :: rest) ++ '\n' :: row := by
  induction rest generalizing first with
  | nil => rfl
  | cons second rest ih =>
      rw [List.cons_append, joinLines_cons_cons, ih, joinLines_cons_cons]
      simp

theorem trimEnd_joinLines (hfirst : first.trim = first) (hrest : ∀ row ∈ rest, row.trim = row)
    (hlast : ∀ row ∈ rest.getLast?, row ≠ []) :
    (joinLines (first :: rest)).trimEnd = joinLines (first :: rest) := by
  rcases List.eq_nil_or_concat rest with rfl | ⟨init, row, rfl⟩
  · exact trimEnd_of_trim_eq_self hfirst
  · rw [List.concat_eq_append] at hrest hlast ⊢
    have hfront : joinLines (first :: (init ++ [row])) =
        (joinLines (first :: init) ++ ['\n']) ++ row := by
      rw [joinLines_concat]
      simp
    rw [hfront]
    exact trimEnd_append_of_trim_eq_self (hrest row (by simp)) (hlast row (by simp)) _

/-- Empty rows at the end are trimmed away with the line feeds before them. -/
theorem trimEnd_joinLines_append_nil (first : Text) (rest : List Text) :
    (joinLines (first :: (rest ++ [[]]))).trimEnd = (joinLines (first :: rest)).trimEnd := by
  have hblank : ∀ c ∈ ['\n'], isBlank c = true := by
    intro c hc
    rw [List.mem_singleton.1 hc]
    decide
  rw [joinLines_concat]
  exact trimEnd_append_of_blank hblank _

theorem trimEnd_joinLines_append {blanks : List Text} (hblanks : ∀ row ∈ blanks, row = [])
    (first : Text) (rest : List Text) :
    (joinLines (first :: (rest ++ blanks))).trimEnd = (joinLines (first :: rest)).trimEnd := by
  induction blanks using List.reverseRecOn with
  | nil => rw [List.append_nil]
  | append_singleton blanks row ih =>
      rw [hblanks row (by simp), ← List.append_assoc, trimEnd_joinLines_append_nil]
      exact ih fun line hline => hblanks line (by simp [hline])

/-- The trimming takes the empty rows at the end and nothing else. -/
theorem exists_joinLines_eq_trimEnd (hfirst : first.trim = first)
    (hrest : ∀ row ∈ rest, row.trim = row) :
    ∃ kept, kept <+: rest ∧ (∀ row ∈ kept.getLast?, row ≠ []) ∧
      (joinLines (first :: rest)).trimEnd = joinLines (first :: kept) := by
  induction rest using List.reverseRecOn with
  | nil => exact ⟨[], List.prefix_rfl, by simp, trimEnd_of_trim_eq_self hfirst⟩
  | append_singleton rest row ih =>
      by_cases hrow : row = []
      · subst hrow
        obtain ⟨kept, hkept, hlast, heq⟩ := ih fun line hline => hrest line (by simp [hline])
        refine ⟨kept, hkept.trans (List.prefix_append ..), hlast, ?_⟩
        rw [trimEnd_joinLines_append_nil, heq]
      · have hlast : ∀ line ∈ (rest ++ [row]).getLast?, line ≠ [] := by simpa using hrow
        exact ⟨rest ++ [row], List.prefix_rfl, hlast, trimEnd_joinLines hfirst hrest hlast⟩

end Ini.Text
