import Ini.Config.Basic
import Ini.Proofs.Text.Lines

/-!
# How lines end

A line ends at a line feed or at a carriage return and a line feed, and the last one may
end with the text. A reader is given lines and never sees what ended them, so it is enough
that the lines are the same. `Terminated` says which texts are written with given lines,
each line with an end of its own choice, and all of them are cut into these lines again
(`Terminated.lines_eq`).

A carriage return in the text itself would change this. Before a line feed it is taken for
a part of the end, and a line feed put behind a last line takes with it a return in which
that line ends.
-/

namespace Ini

namespace Text

variable {text row : Text} {rows : List Text}

/-- The text with a carriage return before every line feed. -/
def crlf (text : Text) : Text := text.flatMap fun c => if c = '\n' then ['\r', '\n'] else [c]

/-- The text with a line feed at its end, unless it is empty or ends in one. -/
def closed (text : Text) : Text :=
  if text = [] ∨ text.getLast? = some '\n' then text else text ++ ['\n']

/-- The text consists of these lines, each with a line feed behind it or with a carriage
return and a line feed. The last one may stand alone if it is not empty. -/
inductive Terminated : List Text → Text → Prop
  | nil : Terminated [] []
  | last {row : Text} (hrow : OneLine row) (hne : row ≠ []) : Terminated [row] row
  | feed {row text : Text} {rows : List Text} (hrow : OneLine row) (h : Terminated rows text) :
      Terminated (row :: rows) (row ++ '\n' :: text)
  | returnFeed {row text : Text} {rows : List Text} (hrow : OneLine row)
      (h : Terminated rows text) : Terminated (row :: rows) (row ++ '\r' :: '\n' :: text)

theorem lines_of_newline_not_mem (hrow : '\n' ∉ row) (hne : row ≠ []) : lines row = [row] := by
  induction row with
  | nil => exact absurd rfl hne
  | cons c rest ih =>
      have hc : c ≠ '\n' := (List.ne_of_not_mem_cons hrow).symm
      have hrest : '\n' ∉ rest := List.not_mem_of_not_mem_cons hrow
      rw [lines_cons hc fun _ hhead => hrest (List.mem_of_head? hhead)]
      by_cases hnil : rest = []
      · subst hnil
        rfl
      · rw [ih hrest hnil]
        rfl

theorem lines_append_return (hrow : '\n' ∉ row) (text : Text) :
    lines (row ++ '\r' :: '\n' :: text) = row :: lines text := by
  have hreturn : '\n' ∉ row ++ ['\r'] := by simpa using hrow
  have hchomp : chomp (row ++ ['\r']) = row := by simp [chomp]
  have hlines := lines_append_cons hreturn text
  rw [hchomp] at hlines
  simpa using hlines

theorem Terminated.lines_eq (h : Terminated rows text) : text.lines = rows := by
  induction h with
  | nil => rfl
  | last hrow hne => exact lines_of_newline_not_mem hrow.newline hne
  | feed hrow _ ih => rw [lines_append_newline hrow, ih]
  | returnFeed hrow _ ih => rw [lines_append_return hrow.newline, ih]

/-! ## Texts without a carriage return -/

theorem oneLine_of_not_mem (hnewline : '\n' ∉ row) (hreturn : '\r' ∉ row) : OneLine row :=
  ⟨hnewline, fun hlast => hreturn (List.mem_of_getLast? hlast)⟩

theorem exists_terminated (h : '\r' ∉ text) : ∃ rows, Terminated rows text := by
  induction text using newline_induction with
  | last row hrow =>
      by_cases hne : row = []
      · exact ⟨[], hne ▸ .nil⟩
      · exact ⟨[row], .last (oneLine_of_not_mem hrow h) hne⟩
  | line row text hrow ih =>
      obtain ⟨rows, hrows⟩ := ih fun hmem => h (by simp [hmem])
      have hreturn : '\r' ∉ row := fun hmem => h (by simp [hmem])
      exact ⟨row :: rows, .feed (oneLine_of_not_mem hrow hreturn) hrows⟩

theorem terminated_lines (h : '\r' ∉ text) : Terminated text.lines text := by
  obtain ⟨rows, hrows⟩ := exists_terminated h
  rwa [hrows.lines_eq]

theorem crlf_append (front back : Text) : crlf (front ++ back) = crlf front ++ crlf back :=
  List.flatMap_append

theorem crlf_of_newline_not_mem (h : '\n' ∉ row) : row.crlf = row := by
  have hself : row.crlf = row.flatMap fun c => [c] :=
    List.flatMap_congr fun c hc => if_neg (ne_of_mem_of_not_mem hc h)
  rw [hself, List.flatMap_singleton']

theorem closed_append_newline (row text : Text) :
    closed (row ++ '\n' :: text) = row ++ '\n' :: closed text := by
  by_cases hnil : text = []
  · subst hnil
    simp [closed]
  · have hlast : (row ++ '\n' :: text).getLast? = text.getLast? := by
      rw [List.getLast?_append_cons, List.getLast?_cons_of_ne_nil hnil]
    by_cases hnewline : text.getLast? = some '\n'
    · rw [closed, closed, hlast, if_pos (.inr hnewline), if_pos (.inr hnewline)]
    · rw [closed, closed, hlast, if_neg (by simp [hnewline]), if_neg (by simp [hnil, hnewline])]
      simp

theorem Terminated.crlf (h : Terminated rows text) (hreturn : '\r' ∉ text) :
    Terminated rows text.crlf := by
  induction h with
  | nil => exact .nil
  | last hrow hne =>
      rw [crlf_of_newline_not_mem hrow.newline]
      exact .last hrow hne
  | @feed row text rows hrow _ ih =>
      have hcrlf : Text.crlf (row ++ '\n' :: text) = row ++ '\r' :: '\n' :: text.crlf := by
        rw [crlf_append, crlf_of_newline_not_mem hrow.newline]
        rfl
      rw [hcrlf]
      exact .returnFeed hrow (ih fun hmem => hreturn (by simp [hmem]))
  | returnFeed => exact absurd (by simp) hreturn

theorem Terminated.closed (h : Terminated rows text) (hreturn : '\r' ∉ text) :
    Terminated rows text.closed := by
  induction h with
  | nil => exact .nil
  | @last row hrow hne =>
      have hlast : row.getLast? ≠ some '\n' := fun hlast =>
        hrow.newline (List.mem_of_getLast? hlast)
      rw [Text.closed, if_neg (by simp [hne, hlast])]
      exact .feed hrow .nil
  | @feed row text rows hrow _ ih =>
      rw [closed_append_newline]
      exact .feed hrow (ih fun hmem => hreturn (by simp [hmem]))
  | returnFeed => exact absurd (by simp) hreturn

end Text

namespace Config

variable {text other : Text}

/-- Reading sees nothing of a text but its lines. -/
theorem read_eq_of_lines_eq (h : text.lines = other.lines) (source : Text) (c : Config) :
    c.read source text = c.read source other := by
  rw [read, read, Store.read, Store.read, h]

/-- Where there is no carriage return in a text, it may be read with one before every line
feed, with a line feed added at its end, or with any mixture of both ends of a line: what is
read is the same, and so is the outcome. -/
theorem read_terminated (h : '\r' ∉ text) (source : Text) (c : Config) :
    c.read source text.crlf = c.read source text ∧
      c.read source text.closed = c.read source text ∧
      ∀ other, Text.Terminated text.lines other → c.read source other = c.read source text := by
  have hlines : Text.Terminated text.lines text := Text.terminated_lines h
  have hread : ∀ other, Text.Terminated text.lines other →
      c.read source other = c.read source text := fun other hother =>
    read_eq_of_lines_eq hother.lines_eq source c
  exact ⟨hread _ (hlines.crlf h), hread _ (hlines.closed h), hread⟩

/-- A value over a blank line and a malformed last line without an end. -/
def unended : Text := "[a]\nk = 1\n\n\t2\n?".toList

theorem read_terminated_unended :
    '\r' ∉ unended ∧
      unended.crlf = "[a]\r\nk = 1\r\n\r\n\t2\r\n?".toList ∧
      (Config.empty .standard).read [] unended.crlf =
        (⟨.standard, ⟨defaultSectionName, [],
            [("a".toList, [("k".toList, some "1\n\n2".toList)])]⟩⟩,
          .error (.malformedLines [] [(5, "?".toList)])) ∧
      (Config.empty .standard).read [] unended.closed =
        (Config.empty .standard).read [] unended.crlf ∧
      (Config.empty .standard).read [] "[a]\r\nk = 1\n\r\n\t2\n?\r\n".toList =
        (Config.empty .standard).read [] unended := by
  have hreturn : '\r' ∉ unended := by decide
  obtain ⟨hcrlf, hclosed, hmixed⟩ := read_terminated hreturn [] (Config.empty .standard)
  refine ⟨hreturn, by decide, ?_, hclosed.trans hcrlf.symm, hmixed _ ?_⟩
  · rw [hcrlf]
    rfl
  · have hlines : unended.lines =
        ["[a]".toList, "k = 1".toList, [], "\t2".toList, "?".toList] := by decide
    rw [hlines]
    exact .returnFeed ⟨by decide, by decide⟩ (.feed ⟨by decide, by decide⟩
      (.returnFeed ⟨by decide, by decide⟩ (.feed ⟨by decide, by decide⟩
        (.returnFeed ⟨by decide, by decide⟩ .nil))))

end Config

end Ini
