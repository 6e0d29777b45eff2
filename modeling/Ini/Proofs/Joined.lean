import Ini.Proofs.Aborted
import Ini.Proofs.Continued
import Ini.Proofs.Text.Lines

/-!
# Texts read one after the other

Where a text begins with a header it does not matter whether it is read behind
another text or in a reading of its own: the store is the same, and so is the
outcome, once the lines of the second text are counted on from those of the first.
What a reader carries from line to line comes to an end at a header. The open
value is stored there as it would be at the end of a text, and the section that
entries go to is another one or none.

What stays are the malformed lines, and the numbers. `Reader.behind` is the reader
that has more of both behind it, and every step commutes with it (`feed_behind`).
-/

namespace Ini

/-- A line further down. -/
def Position.shift (taken : Nat) (place : Position) : Position :=
  { place with line := place.line + taken }

/-- The fault, where so many lines more stand before the text. -/
def Fault.shift (taken : Nat) : Fault → Fault
  | sectionExists name place => sectionExists name (place.map (Position.shift taken))
  | optionExists name key place => optionExists name key (place.shift taken)
  | noHeader place raw => noHeader (place.shift taken) raw
  | malformedLines source lines =>
    malformedLines source (lines.map fun line => (line.1 + taken, line.2))
  | fault => fault

/-- A line that is a header, its name perhaps empty, and no part of a value. -/
def Line.IsHeader (d : Dialect) (raw : Text) : Prop :=
  raw.indented = false ∧ (Statement.ofCleaned d (Line.clean d raw)).isHeader = true

instance {d : Dialect} {raw : Text} : Decidable (Line.IsHeader d raw) :=
  inferInstanceAs (Decidable (_ ∧ _))

namespace Reader

/-- The malformed lines that an outcome reports, unless it is a fault that broke the
reading off. -/
def reported? : Except Fault Unit → Option (List (Nat × Text))
  | .ok () => some []
  | .error (.malformedLines _ lines) => some lines
  | .error _ => none

/-- The outcome that reports these lines. -/
def report (source : Text) (lines : List (Nat × Text)) : Except Fault Unit :=
  if lines.isEmpty then .ok () else .error (.malformedLines source lines)

/-- A reading and the next one into the store it leaves, counted as one. If a fault
breaks the first off, there is no second. -/
def andThen (source : Text) (taken : Nat) (first : Store × Except Fault Unit)
    (next : Store → Store × Except Fault Unit) : Store × Except Fault Unit :=
  match reported? first.2 with
  | none => first
  | some before =>
    ((next first.1).1,
      match reported? (next first.1).2 with
      | none => (next first.1).2.mapError (Fault.shift taken)
      | some after =>
        report source (before ++ after.map fun line => (line.1 + taken, line.2)))

/-- The reader with so many lines more behind it, these of them malformed. -/
def behind (before : List (Nat × Text)) (taken : Nat) (r : Reader) : Reader :=
  { r with malformed := before ++ r.malformed.map fun line => (line.1 + taken, line.2) }

/-- The same for a reader and its outcome. -/
def resultBehind (before : List (Nat × Text)) (taken : Nat) (result : Reader × Except Fault Unit) :
    Reader × Except Fault Unit :=
  (result.1.behind before taken, result.2.mapError (Fault.shift taken))

variable {d : Dialect} {source raw name : Text} {place : Position} {fault : Fault} {r : Reader}
  {before : List (Nat × Text)} {taken number : Nat} {lines : List Text}

/-! ## A reader behind other lines -/

theorem flush_behind (before : List (Nat × Text)) (taken : Nat) (r : Reader) :
    (r.behind before taken).flush = r.flush.behind before taken := by
  obtain ⟨store, current, pending, malformed⟩ := r
  cases pending <;> rfl

theorem reject_behind (before : List (Nat × Text)) (taken : Nat) (place : Position) (raw : Text)
    (r : Reader) :
    (r.behind before taken).reject (place.shift taken) raw =
      (r.reject place raw).behind before taken := by
  simp [reject, behind, Position.shift]

theorem locate_behind (before : List (Nat × Text)) (taken : Nat) (r : Reader) :
    (r.behind before taken).locate d =
      (r.locate d).map fun found => (found.1, found.2.behind before taken) := by
  unfold locate
  cases hcurrent : r.current with
  | some name => simp [behind, hcurrent]
  | none => by_cases hheadless : d.headless = true <;> simp [behind, hcurrent, hheadless]

theorem enter_behind (before : List (Nat × Text)) (taken : Nat) (place : Position) (raw name : Text)
    (r : Reader) :
    (r.behind before taken).enter d (place.shift taken) raw name =
      resultBehind before taken (r.enter d place raw name) := by
  unfold enter
  have hstore : (r.behind before taken).store = r.store := rfl
  rw [hstore]
  split
  · exact congrArg (·, _) (reject_behind before taken place raw { r with current := none })
  · split
    · rfl
    · split <;> rfl

theorem assign_behind (before : List (Nat × Text)) (taken : Nat) (place : Position)
    (name key : Text) (value : Option Text) (r : Reader) :
    (r.behind before taken).assign d (place.shift taken) name key value =
      resultBehind before taken (r.assign d place name key value) := by
  unfold assign
  have hstore : (r.behind before taken).store = r.store := rfl
  rw [hstore]
  split
  · rfl
  · split <;> rfl

theorem start_behind (before : List (Nat × Text)) (taken : Nat) (place : Position) (raw : Text)
    (statement : Statement) (r : Reader) :
    (r.behind before taken).start d (place.shift taken) raw statement =
      resultBehind before taken (r.start d place raw statement) := by
  unfold start
  rw [locate_behind]
  cases statement with
  | header name => exact enter_behind ..
  | entry key value =>
      cases r.locate d with
      | none => rfl
      | some found => exact assign_behind ..
  | malformed =>
      cases r.locate d with
      | none => rfl
      | some found => exact congrArg (·, _) (reject_behind ..)

theorem feed_behind (before : List (Nat × Text)) (taken : Nat) (place : Position) (raw : Text)
    (r : Reader) :
    (r.behind before taken).feed d (place.shift taken) raw =
      resultBehind before taken (r.feed d place raw) := by
  unfold feed
  rw [flush_behind]
  have hpending : (r.behind before taken).pending = r.pending := rfl
  rw [hpending]
  cases r.pending with
  | none =>
      simp only []
      split
      · rfl
      · exact start_behind ..
  | some p =>
      simp only []
      split
      · rfl
      · split
        · rfl
        · exact start_behind ..

theorem feedAll_behind (before : List (Nat × Text)) (taken : Nat) (lines : List Text) :
    ∀ (number : Nat) (r : Reader),
      (r.behind before taken).feedAll d source (number + taken) lines =
        resultBehind before taken (r.feedAll d source number lines) := by
  induction lines with
  | nil =>
      intro number r
      rfl
  | cons raw rest ih =>
      intro number r
      have hfeed : (r.behind before taken).feed d ⟨source, number + taken⟩ raw =
          resultBehind before taken (r.feed d ⟨source, number⟩ raw) :=
        feed_behind before taken ⟨source, number⟩ raw r
      rw [feedAll, feedAll, hfeed, Nat.add_right_comm]
      rcases r.feed d ⟨source, number⟩ raw with ⟨q, outcome⟩
      cases outcome with
      | ok => exact ih (number + 1) q
      | error fault => rfl

/-! ## A header -/

theorem exists_header (h : Line.IsHeader d raw) :
    Item.continues d raw = false ∧
      ∃ name, Statement.ofCleaned d (Line.clean d raw) = .header name := by
  obtain ⟨hraw, hheader⟩ := h
  cases hs : Statement.ofCleaned d (Line.clean d raw) with
  | header name =>
      have hclean : Line.clean d raw ≠ [] := by
        intro hnil
        rw [hnil, Statement.ofCleaned_nil] at hs
        cases hs
      exact ⟨by simp [Item.continues, hclean, hraw], name, rfl⟩
  | entry | malformed =>
      rw [hs] at hheader
      cases hheader

theorem feed_header (hraw : Item.continues d raw = false)
    (hs : Statement.ofCleaned d (Line.clean d raw) = .header name) (place : Position) (r : Reader) :
    r.feed d place raw = r.flush.enter d place raw name := by
  obtain ⟨hclean, -⟩ : Line.clean d raw ≠ [] ∧ raw.indented = false := by
    simpa [Item.continues] using hraw
  rw [← feed_flush hraw, feed]
  simp only [pending_flush, List.isEmpty_iff, hclean, if_false, hs]
  rfl

/-- Without an open value, the section that entries went to does not matter to a
header. -/
theorem conclude_current (hr : r.pending = none) (hlines : ∀ raw ∈ lines.head?, Line.IsHeader d raw)
    (current : Option Text) :
    conclude source (feedAll d source number lines { r with current := current }) =
      conclude source (r.feedAll d source number lines) := by
  cases lines with
  | nil => simp [feedAll, conclude, finish, flush, hr]
  | cons raw rest =>
      obtain ⟨hraw, name, hs⟩ := exists_header (hlines raw rfl)
      have hflush : r.flush = r := by simp [flush, hr]
      have hflush' : flush { r with current := current } = { r with current := current } := by
        simp [flush, hr]
      rw [feedAll, feedAll, feed_header hraw hs, feed_header hraw hs, hflush, hflush']
      by_cases hempty : name.isEmpty = true
      · simp only [enter, hempty, if_true]
      · by_cases hdefault : name = d.defaultSection
        · simp only [enter, hdefault, if_true]
        · by_cases hdup : (r.store.hasSection name && d.strict) = true
          · simp only [enter, hempty, hdefault, if_false, hdup, if_true]
            rfl
          · simp only [enter, hempty, hdefault, hdup, Bool.false_eq_true, if_false]

theorem reported?_of_feedAll {q : Reader}
    (h : r.feedAll d source number lines = (q, .error fault)) :
    reported? (.error fault) = none := by
  obtain ⟨front, raw, back, p, -, -, hraw⟩ := exists_of_feedAll_error h
  have hfed := fed d ⟨source, number + front.length⟩ raw p
  rw [hraw] at hfed
  rcases hfed.position?_of_error with hplace | ⟨name, rfl⟩
  · cases fault with
    | malformedLines => cases hplace
    | _ => rfl
  · rfl

theorem reported?_report (source : Text) (lines : List (Nat × Text)) :
    reported? (report source lines) = some lines := by
  unfold report
  cases lines <;> rfl

theorem reported?_mapError_shift {outcome : Except Fault Unit} (h : reported? outcome = none)
    (taken : Nat) : reported? (outcome.mapError (Fault.shift taken)) = none := by
  cases outcome with
  | ok => cases h
  | error fault =>
      cases fault with
      | malformedLines => cases h
      | _ => rfl

theorem conclude_behind (before : List (Nat × Text)) (taken : Nat)
    (result : Reader × Except Fault Unit)
    (hresult : ∀ fault, result.2 = .error fault → reported? (.error fault) = none) :
    conclude source (resultBehind before taken result) =
      ((conclude source result).1,
        match reported? (conclude source result).2 with
        | none => (conclude source result).2.mapError (Fault.shift taken)
        | some after =>
          report source (before ++ after.map fun line => (line.1 + taken, line.2))) := by
  obtain ⟨q, outcome⟩ := result
  cases outcome with
  | ok =>
      have hreport : (q.finish source).2 = report source q.malformed := rfl
      simp only [conclude, hreport, reported?_report]
      exact Prod.ext ((congrArg Reader.store (flush_behind before taken q)).trans rfl) rfl
  | error fault =>
      simp only [conclude, hresult fault rfl]
      rfl

end Reader

namespace Store

variable {d : Dialect} {source : Text} {first second : List Text} {s : Store}

/-- Behind a header line reading goes on as if it began there. -/
theorem readLines_append (hsecond : ∀ raw ∈ second.head?, Line.IsHeader d raw) :
    s.readLines d source (first ++ second) =
      Reader.andThen source first.length (s.readLines d source first)
        (readLines d source second) := by
  rw [readLines_eq_conclude, readLines_eq_conclude, Reader.feedAll_append]
  rcases hfirst : Reader.feedAll d source 1 first { store := s } with ⟨r, outcome⟩
  cases outcome with
  | error fault =>
      simp only [Reader.conclude, Reader.andThen, Reader.reported?_of_feedAll hfirst]
  | ok =>
      have hend : Reader.conclude source (r, .ok ()) =
          (r.flush.store, Reader.report source r.malformed) := rfl
      have hcontinues : ∀ raw ∈ second.head?, Item.continues d raw = false :=
        fun raw hraw => (Reader.exists_header (hsecond raw hraw)).1
      -- Up to the section that entries go to, the reader that meets the header is the
      -- one that begins a reading, with the first lines behind it.
      have hbehind : { r.flush with current := none } =
          Reader.behind r.malformed first.length { store := r.flush.store } := by
        simp [Reader.behind]
      simp only [hend, Reader.andThen, Reader.reported?_report]
      rw [← Reader.conclude_flush hcontinues,
        ← Reader.conclude_current (Reader.pending_flush r) hsecond none, hbehind,
        Reader.feedAll_behind, readLines_eq_conclude]
      exact Reader.conclude_behind _ _ _ fun fault h => Reader.reported?_of_feedAll (Prod.ext rfl h)

/-- Lines that begin with a header may be read in a reading of their own, and so may
a text that does, behind a text whose last line is complete. The store is the same
and the outcome is that of both, the lines of the second counted on. -/
theorem read_append (d : Dialect) (source : Text) (s : Store) :
    (∀ first second : List Text, (∀ raw ∈ second.head?, Line.IsHeader d raw) →
      s.readLines d source (first ++ second) =
        Reader.andThen source first.length (s.readLines d source first)
          (readLines d source second)) ∧
    ∀ text more : Text, text = [] ∨ text.getLast? = some '\n' →
      (∀ raw ∈ more.lines.head?, Line.IsHeader d raw) →
      s.read d source (text ++ more) =
        Reader.andThen source text.lines.length (s.read d source text) (read d source more) := by
  refine ⟨fun first second hsecond => readLines_append hsecond, fun text more htext hmore => ?_⟩
  rw [read_eq_readLines, Text.lines_append htext]
  exact readLines_append hmore

/-- A text whose last value ends with it, between malformed lines. -/
def firstPart : Text := "[a]\n?\nk = 1\n\t2\n".toList

/-- A text that closes the section with a header of no name. -/
def secondPart : Text := "[]\n[b]\n:\nk = 3".toList

theorem read_append_parts :
    firstPart.getLast? = some '\n' ∧
      (∀ raw ∈ secondPart.lines.head?, Line.IsHeader .standard raw) ∧
      read .standard [] (firstPart ++ secondPart) ⟨defaultSectionName, [], []⟩ =
        (⟨defaultSectionName, [],
            [("a".toList, [("k".toList, some "1\n2".toList)]),
              ("b".toList, [("k".toList, some "3".toList)])]⟩,
          .error (.malformedLines [] [(2, "?".toList), (5, "[]".toList), (7, ":".toList)])) ∧
      (readLines .standard [] (firstPart.lines ++ ["[a]".toList]) ⟨defaultSectionName, [], []⟩).2 =
        .error (.sectionExists "a".toList (some ⟨[], 5⟩)) := by
  have hfirst : firstPart.getLast? = some '\n' := rfl
  have hsecond : ∀ raw ∈ secondPart.lines.head?, Line.IsHeader .standard raw := by decide
  obtain ⟨hlines, htexts⟩ := read_append .standard [] ⟨defaultSectionName, [], []⟩
  refine ⟨hfirst, hsecond, ?_, ?_⟩
  · rw [htexts _ _ (.inr hfirst) hsecond]
    rfl
  · rw [hlines _ _ (by decide)]
    rfl

end Store

end Ini
