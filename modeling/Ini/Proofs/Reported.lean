import Ini.Config.Basic
import Ini.Proofs.Rejected
import Ini.Proofs.Text.Cut
import Ini.Proofs.Text.Quiet
import Mathlib.Data.List.Induction

/-!
# Which lines are reported

A line is malformed for what it says and for where it stands. What it says is a matter
of the line and the dialect (`Line.Rejectable`). Where it stands matters only if it is
indented, for then it may go on with a value, and whether there is a value to go on
with can be told by looking back over the lines: the nearest one that does not go on
with anything states it, or none does (`Line.ValueOpen`).

A reader does not look back but keeps a value open or not from line to line, and notes
malformed lines as it meets them. That both come to the same is shown by induction on
the lines from the front, one more at the end of those already read
(`reported_feedAll`): the new line can only be the last one reported, so the numbers
increase.
-/

namespace Ini

/-- Where a line stands among others and one more: it is that one, or it stands among
the others. -/
theorem concat_eq_append_cons {α : Type} {xs front back : List α} {last x : α}
    (h : xs ++ [last] = front ++ x :: back) :
    back = [] ∧ xs = front ∧ last = x ∨ ∃ rest, back = rest ++ [last] ∧ xs = front ++ x :: rest := by
  rcases List.eq_nil_or_concat back with rfl | ⟨rest, other, rfl⟩
  · obtain ⟨rfl, hlast⟩ := List.append_inj' h rfl
    cases hlast
    exact .inl ⟨rfl, rfl, rfl⟩
  · rw [List.concat_eq_append, ← List.cons_append, ← List.append_assoc] at h
    obtain ⟨rfl, hlast⟩ := List.append_inj' h rfl
    cases hlast
    exact .inr ⟨rest, List.concat_eq_append, rfl⟩

namespace Line

/-- A line that says nothing: a header without a name, or a line that is no header and
has none of the delimiters it needs or nothing but blanks before the first of them. -/
def Rejectable (d : Dialect) (raw : Text) : Prop :=
  clean d raw ≠ [] ∧
    (clean d raw = ['[', ']'] ∨
      (∀ name, clean d raw ≠ '[' :: name ++ [']']) ∧
        (d.bareKeys = false ∧ (∀ mark ∈ d.delimiters, mark ≠ [] → ¬mark <:+: clean d raw) ∨
          ∃ before mark after, Text.FirstMark d.delimiters (clean d raw) before mark after ∧
            ∀ c ∈ before, isBlank c = true))

/-- A line that leaves an open value open: an indented one, or a blank one where the
dialect lets blank lines stand in values. -/
def GoesOn (d : Dialect) (raw : Text) : Prop :=
  if clean d raw = [] then d.blankLinesInValues = true else raw.indented = true

/-- A line that states an entry with a value stands among these, and all lines behind
it go on with the value. -/
def ValueOpen (d : Dialect) (lines : List Text) : Prop :=
  ∃ front first run key value, lines = front ++ first :: run ∧
    Statement.ofCleaned d (clean d first) = .entry key (some value) ∧ ∀ raw ∈ run, GoesOn d raw

end Line

namespace Statement

theorem isRejected_ofKey {key : Text} {value : Option Text} :
    (ofKey key value).isRejected = true ↔ ∀ c ∈ key, isBlank c = true := by
  rw [← Text.trim_eq_nil_iff, ofKey]
  split
  · next h => simpa [isRejected] using h
  · next h => simpa [isRejected] using h

theorem isRejected_ofCleaned {d : Dialect} {row : Text} (hne : row ≠ []) (htrim : row.trim = row) :
    (ofCleaned d row).isRejected = true ↔
      row = ['[', ']'] ∨
        (∀ name, row ≠ '[' :: name ++ [']']) ∧
          (d.bareKeys = false ∧ (∀ mark ∈ d.delimiters, mark ≠ [] → ¬mark <:+: row) ∨
            ∃ before mark after, Text.FirstMark d.delimiters row before mark after ∧
              ∀ c ∈ before, isBlank c = true) := by
  rw [← Text.cut_eq_none_iff]
  cases hheader : headerName? row with
  | some name =>
      have hrow := headerName?_eq_some_iff.1 hheader
      have hnot : ¬∀ name, row ≠ '[' :: name ++ [']'] := fun h => h name hrow
      have hbrackets : row = ['[', ']'] ↔ name = [] := by simp [hrow]
      rw [ofCleaned, hheader]
      simp only [isRejected, List.isEmpty_iff, hbrackets, hnot, false_and, or_false]
  | none =>
      have hnot : ∀ name, row ≠ '[' :: name ++ [']'] := by
        intro name hrow
        rw [headerName?_eq_some_iff.2 hrow] at hheader
        cases hheader
      cases hcut : Text.cut d.delimiters row with
      | some found =>
          have hfirst := Text.firstMark_of_cut hcut
          rw [ofCleaned, hheader, hcut]
          simp only [isRejected_ofKey]
          constructor
          · exact fun h => .inr ⟨hnot, .inr ⟨_, _, _, hfirst, h⟩⟩
          · rintro (h | ⟨-, ⟨-, h⟩ | ⟨before, mark, after, hmark, h⟩⟩)
            · exact absurd h (hnot [])
            · cases h
            · rwa [hfirst.before_eq hmark]
      | none =>
          have hkey : ¬∀ c ∈ row, isBlank c = true := by
            rwa [← Text.trim_eq_nil_iff, htrim]
          rw [ofCleaned, hheader, hcut]
          cases d.bareKeys with
          | false => exact iff_of_true rfl (.inr ⟨hnot, .inl ⟨rfl, rfl⟩⟩)
          | true =>
              simp only [if_true, isRejected_ofKey]
              refine iff_of_false hkey ?_
              rintro (h | ⟨-, ⟨h, -⟩ | ⟨before, mark, after, hmark, -⟩⟩)
              · exact hnot [] h
              · cases h
              · exact Text.cut_eq_none_iff.1 hcut mark hmark.mem hmark.ne_nil
                  ⟨before, after, hmark.append_eq⟩

end Statement

namespace Line

variable {d : Dialect} {raw : Text} {front : List Text} {opened : Bool}

theorem rejects_iff (hopened : opened = true ↔ ValueOpen d front) :
    rejects d opened raw = true ↔
      Rejectable d raw ∧ ¬(raw.indented = true ∧ ValueOpen d front) := by
  rw [← hopened, rejects, Rejectable]
  by_cases hclean : clean d raw = []
  · simp [hclean]
  · by_cases habsorbed : raw.indented = true ∧ opened = true
    · simp [hclean, habsorbed]
    · have hstarts : ((clean d raw).isEmpty || opened && raw.indented) = false := by
        simpa [hclean, and_comm] using habsorbed
      rw [hstarts, if_neg Bool.false_ne_true, Statement.isRejected_ofCleaned hclean (trim_clean d raw)]
      simp [hclean, habsorbed]

theorem valueOpen_concat :
    ValueOpen d (front ++ [raw]) ↔
      (Statement.ofCleaned d (clean d raw)).isOpen = true ∨ ValueOpen d front ∧ GoesOn d raw := by
  constructor
  · rintro ⟨before, first, run, key, value, heq, hfirst, hrun⟩
    rcases concat_eq_append_cons heq with ⟨-, -, rfl⟩ | ⟨rest, rfl, rfl⟩
    · exact .inl (by rw [hfirst]; rfl)
    · obtain ⟨hrest, hraw⟩ := List.forall_mem_append.1 hrun
      exact .inr ⟨⟨before, first, rest, key, value, rfl, hfirst, hrest⟩, hraw raw (by simp)⟩
  · rintro (hopen | ⟨⟨before, first, run, key, value, rfl, hfirst, hrun⟩, hraw⟩)
    · cases hs : Statement.ofCleaned d (clean d raw) with
      | header | malformed =>
          rw [hs] at hopen
          cases hopen
      | entry key value =>
          rw [hs] at hopen
          obtain ⟨text, rfl⟩ := Option.isSome_iff_exists.1 hopen
          exact ⟨front, raw, [], key, text, rfl, hs, by simp⟩
    · refine ⟨before, first, run ++ [raw], key, value, by simp, hfirst, ?_⟩
      exact List.forall_mem_append.2 ⟨hrun, List.forall_mem_singleton.2 hraw⟩

theorem opens_iff (hopened : opened = true ↔ ValueOpen d front) :
    opens d opened raw = true ↔ ValueOpen d (front ++ [raw]) := by
  rw [valueOpen_concat, ← hopened, opens, GoesOn]
  by_cases hclean : clean d raw = []
  · simp [hclean, Statement.ofCleaned_nil, Statement.isOpen]
  · by_cases habsorbed : opened = true ∧ raw.indented = true
    · simp [hclean, habsorbed]
    · simp [hclean, habsorbed]

end Line

/-- Of the lines so far, these are the malformed ones with their numbers: those that
say nothing and go on with no value. -/
structure Reported (d : Dialect) (lines : List Text) (malformed : List (Nat × Text)) : Prop where
  ordered : malformed.Pairwise fun line other => line.1 < other.1
  mem_iff : ∀ number raw, (number, raw) ∈ malformed ↔
    ∃ front back, lines = front ++ raw :: back ∧ number = front.length + 1 ∧
      Line.Rejectable d raw ∧ ¬(raw.indented = true ∧ Line.ValueOpen d front)

namespace Reported

variable {d : Dialect} {raw : Text} {lines : List Text} {malformed : List (Nat × Text)}

theorem concat (h : Reported d lines malformed) {noted : Bool}
    (hnoted : noted = true ↔
      Line.Rejectable d raw ∧ ¬(raw.indented = true ∧ Line.ValueOpen d lines)) :
    Reported d (lines ++ [raw])
      (malformed ++ if noted then [(lines.length + 1, raw)] else []) := by
  have hnew : ∀ line, line ∈ (if noted then [(lines.length + 1, raw)] else []) ↔
      noted = true ∧ line = (lines.length + 1, raw) := by
    intro line
    cases noted <;> simp
  refine ⟨List.pairwise_append.2 ⟨h.ordered, ?_, ?_⟩, fun number row => ?_⟩
  · split <;> simp
  · rintro ⟨number, row⟩ hold line hline
    obtain ⟨front, back, rfl, rfl, -⟩ := (h.mem_iff number row).1 hold
    rw [((hnew line).1 hline).2]
    simp
  · rw [List.mem_append, h.mem_iff, hnew]
    constructor
    · rintro (⟨front, back, rfl, rfl, hrow⟩ | ⟨hlast, heq⟩)
      · exact ⟨front, back ++ [raw], by simp, rfl, hrow⟩
      · cases heq
        exact ⟨lines, [], rfl, rfl, hnoted.1 hlast⟩
    · rintro ⟨front, back, heq, rfl, hrow⟩
      rcases concat_eq_append_cons heq with ⟨-, rfl, rfl⟩ | ⟨rest, -, rfl⟩
      · exact .inr ⟨hnoted.2 hrow, rfl⟩
      · exact .inl ⟨front, rest, rfl, rfl, hrow⟩

end Reported

namespace Reader

variable {d : Dialect} {source : Text} {lines : List Text} {s : Store} {q : Reader}

/-- A reader that no fault has stopped has noted the malformed lines, and has a value
open just if the lines leave one open. -/
theorem reported_feedAll (lines : List Text) :
    ∀ {q : Reader}, feedAll d source 1 lines { store := s } = (q, .ok ()) →
      (q.pending.isSome = true ↔ Line.ValueOpen d lines) ∧ Reported d lines q.malformed := by
  induction lines using List.reverseRecOn with
  | nil =>
      intro q h
      cases h
      exact ⟨by simp [Line.ValueOpen], ⟨.nil, by simp⟩⟩
  | append_singleton front raw ih =>
      intro q h
      obtain ⟨r, hr, hlast⟩ := exists_of_feedAll_append h
      obtain ⟨hopen, hreported⟩ := ih hr
      have hfed := fed d ⟨source, 1 + front.length⟩ raw r
      rw [feedAll] at hlast
      split at hlast
      · next p hp =>
          cases hlast
          rw [hp] at hfed
          obtain ⟨hmalformed, hpending⟩ := hfed.rejected
          rw [hmalformed, hpending, Nat.add_comm]
          exact ⟨Line.opens_iff hopen, hreported.concat (Line.rejects_iff hopen)⟩
      · cases hlast

end Reader

/-- A reading that no fault breaks off reports, under their numbers and in their
order, the lines that say nothing: all the unindented ones, and of the indented ones
those that are not taken into a value. A value is open behind some lines where the
reader has one open, and that depends on the lines alone. -/
theorem Config.mem_reported_iff (c : Config) (source text : Text) {reported : List (Nat × Text)}
    (h : Reader.reported? (c.read source text).2 = some reported) :
    (∀ front raw back, text.lines = front ++ raw :: back →
      (raw.indented = false →
        ((front.length + 1, raw) ∈ reported ↔ Line.Rejectable c.dialect raw)) ∧
      (raw.indented = true →
        ((front.length + 1, raw) ∈ reported ↔
          Line.Rejectable c.dialect raw ∧ ¬Line.ValueOpen c.dialect front)) ∧
      ∃ r, Reader.feedAll c.dialect source 1 front { store := c.store } = (r, .ok ()) ∧
        (r.pending.isSome = true ↔ Line.ValueOpen c.dialect front)) ∧
    (∀ number raw, (number, raw) ∈ reported →
      ∃ front back, text.lines = front ++ raw :: back ∧ number = front.length + 1) ∧
    reported.Pairwise (fun line other => line.1 < other.1) ∧
    (c.read source text).2 =
      if reported = [] then .ok () else .error (.malformedLines source reported) := by
  have hread : (c.read source text).2 = (c.store.readLines c.dialect source text.lines).2 := rfl
  rw [hread] at h ⊢
  obtain ⟨q, hall, rfl, houtcome⟩ := Store.exists_of_reported? h
  obtain ⟨-, hreported⟩ := Reader.reported_feedAll text.lines hall
  have hmem : ∀ front raw back, text.lines = front ++ raw :: back →
      ((front.length + 1, raw) ∈ q.malformed ↔ Line.Rejectable c.dialect raw ∧
        ¬(raw.indented = true ∧ Line.ValueOpen c.dialect front)) := by
    intro front raw back hlines
    rw [hreported.mem_iff]
    constructor
    · rintro ⟨other, rest, heq, hlength, hraw⟩
      obtain ⟨rfl, -⟩ := List.append_inj (hlines.symm.trans heq) (Nat.succ_injective hlength)
      exact hraw
    · exact fun hraw => ⟨front, back, hlines, rfl, hraw⟩
  refine ⟨fun front raw back hlines => ⟨fun hraw => ?_, fun hraw => ?_, ?_⟩, ?_, hreported.ordered, ?_⟩
  · rw [hmem front raw back hlines]
    simp [hraw]
  · rw [hmem front raw back hlines]
    simp [hraw]
  · rw [hlines] at hall
    obtain ⟨r, hr, -⟩ := Reader.exists_of_feedAll_append hall
    exact ⟨r, hr, (Reader.reported_feedAll front hr).1⟩
  · intro number raw hline
    obtain ⟨front, back, hlines, hnumber, -⟩ := (hreported.mem_iff number raw).1 hline
    exact ⟨front, back, hlines, hnumber⟩
  · rw [houtcome, Reader.report]
    simp only [List.isEmpty_iff]

/-- A text with a line that would be malformed but for the value before it, and one
that is although it is indented. -/
def Text.garbled : Text := "[a]\nk = 1\n  ?\n?\n  = w\n[]".toList

theorem Config.mem_reported_iff_garbled :
    Reader.reported? ((empty .standard).read [] Text.garbled).2 =
        some [(4, "?".toList), (5, "  = w".toList), (6, "[]".toList)] ∧
      Text.indented "?".toList = false ∧ Line.Rejectable .standard "?".toList ∧
      Text.indented "  = w".toList = true ∧ Line.Rejectable .standard "  = w".toList ∧
      Line.ValueOpen .standard ["[a]".toList, "k = 1".toList] ∧
      ((empty .standard).read [] Text.garbled).2 =
        .error (.malformedLines []
          [(4, "?".toList), (5, "  = w".toList), (6, "[]".toList)]) := by
  have hreported : Reader.reported? ((empty .standard).read [] Text.garbled).2 =
      some [(4, "?".toList), (5, "  = w".toList), (6, "[]".toList)] := rfl
  obtain ⟨hall, -, -, houtcome⟩ := mem_reported_iff (empty .standard) [] Text.garbled hreported
  obtain ⟨-, -, r, hr, hopen⟩ :=
    hall ["[a]".toList, "k = 1".toList] "  ?".toList _ rfl
  obtain ⟨hmark, -, -⟩ :=
    hall ["[a]".toList, "k = 1".toList, "  ?".toList] "?".toList _ rfl
  obtain ⟨-, hindented, -⟩ :=
    hall ["[a]".toList, "k = 1".toList, "  ?".toList, "?".toList] "  = w".toList _ rfl
  refine ⟨hreported, rfl, (hmark rfl).1 (by simp), rfl, ((hindented rfl).1 (by simp)).1, ?_,
    houtcome⟩
  cases hr
  exact hopen.1 rfl

end Ini
