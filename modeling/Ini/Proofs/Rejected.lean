import Ini.Proofs.Joined

/-!
# Which lines are malformed

Whether a line is malformed depends on the lines alone. The store has no say in it,
nor has the section that entries go to: a reader that cannot place a malformed line
does not pass over it but stops. All that matters of the lines before is whether a
value may go on, since a line that continues one is never malformed. So `rejected`
finds the malformed lines of an unbroken reading without a reader, and behind a
header it begins anew (`rejected_append`).
-/

namespace Ini

namespace Statement

/-- A statement that is noted as malformed: one that makes no sense, or a header
without a name. -/
def isRejected : Statement → Bool
  | header name => name.isEmpty
  | entry .. => false
  | malformed => true

/-- A statement whose value the next lines may continue. -/
def isOpen : Statement → Bool
  | entry _ value => value.isSome
  | _ => false

end Statement

namespace Line

/-- Whether a line is malformed where a value may go on, or where none may. -/
def rejects (d : Dialect) (opened : Bool) (raw : Text) : Bool :=
  if (clean d raw).isEmpty || opened && raw.indented then false
  else (Statement.ofCleaned d (clean d raw)).isRejected

/-- Whether a value may go on behind a line. -/
def opens (d : Dialect) (opened : Bool) (raw : Text) : Bool :=
  if (clean d raw).isEmpty then opened && d.blankLinesInValues
  else if opened && raw.indented then true
  else (Statement.ofCleaned d (clean d raw)).isOpen

/-- The malformed ones among lines. -/
def rejected (d : Dialect) : Bool → List Text → List Text
  | _, [] => []
  | opened, raw :: rest =>
    (if rejects d opened raw then [raw] else []) ++ rejected d (opens d opened raw) rest

variable {d : Dialect} {raw : Text} {second : List Text}

/-- No value goes on at a header. -/
theorem rejected_of_isHeader (h : ∀ raw ∈ second.head?, IsHeader d raw) (opened : Bool) :
    rejected d opened second = rejected d false second := by
  cases second with
  | nil => rfl
  | cons raw rest =>
      have hraw : raw.indented = false := (h raw rfl).1
      have hclean : (clean d raw).isEmpty = false := by
        have hcontinues := (Reader.exists_header (h raw rfl)).1
        simp only [Item.continues, Bool.or_eq_false_iff] at hcontinues
        exact hcontinues.1
      simp [rejected, rejects, opens, hraw, hclean]

theorem rejected_append (h : ∀ raw ∈ second.head?, IsHeader d raw) (first : List Text) :
    ∀ opened : Bool,
      rejected d opened (first ++ second) = rejected d opened first ++ rejected d false second := by
  induction first with
  | nil =>
      intro opened
      exact rejected_of_isHeader h opened
  | cons raw rest ih =>
      intro opened
      rw [List.cons_append, rejected, rejected, ih, List.append_assoc]

end Line

namespace Reader

variable {d : Dialect} {source raw : Text} {place : Position} {statement : Statement}
  {r q : Reader} {lines : List Text} {s : Store}

theorem Started.rejected (h : Started d place raw r statement (q, .ok ())) (hr : r.pending = none) :
    q.malformed = r.malformed ++ (if statement.isRejected then [(place.line, raw)] else []) ∧
      q.pending.isSome = statement.isOpen := by
  cases h with
  | nameless => exact ⟨rfl, congrArg Option.isSome hr⟩
  | defaults hne =>
      refine ⟨?_, congrArg Option.isSome hr⟩
      simp [Statement.isRejected, hne]
  | opened hne =>
      refine ⟨?_, congrArg Option.isSome hr⟩
      simp [Statement.isRejected, hne]
  | @assigned name key value q' content hq =>
      refine ⟨?_, ?_⟩
      · simp [Statement.isRejected, hq.malformed_eq]
      · simp [Statement.isOpen]
  | malformed hq =>
      refine ⟨?_, congrArg Option.isSome (hq.pending_eq.trans hr)⟩
      simp [Statement.isRejected, reject, hq.malformed_eq]

/-- What a line that is not at fault adds to the malformed lines, and whether a value
is open behind it. -/
theorem Fed.rejected (h : Fed d place raw r (q, .ok ())) :
    q.malformed =
        r.malformed ++ (if Line.rejects d r.pending.isSome raw then [(place.line, raw)] else []) ∧
      q.pending.isSome = Line.opens d r.pending.isSome raw := by
  cases h with
  | idle hclean hr => simp [Line.rejects, Line.opens, hclean, hr]
  | gap hclean hr =>
      refine ⟨by simp [Line.rejects, hclean], ?_⟩
      cases hblank : d.blankLinesInValues <;> simp [Line.opens, hclean, hr, hblank]
  | row hclean hraw hr => simp [Line.rejects, Line.opens, hclean, hraw, hr]
  | started hclean hraw hstarted =>
      have hopened : (r.pending.isSome && raw.indented) = false := by
        cases hr : r.pending with
        | none => rfl
        | some p => simpa using hraw p hr
      have hstart := hstarted.rejected (pending_flush r)
      rw [malformed_flush] at hstart
      simpa [Line.rejects, Line.opens, hclean, hopened] using hstart

/-- An unbroken reading notes the malformed lines. -/
theorem malformed_feedAll :
    ∀ {number : Nat} {r : Reader}, r.feedAll d source number lines = (q, .ok ()) →
      q.malformed.map Prod.snd =
        r.malformed.map Prod.snd ++ Line.rejected d r.pending.isSome lines := by
  induction lines with
  | nil =>
      intro number r h
      cases h
      simp [Line.rejected]
  | cons raw rest ih =>
      intro number r h
      have hfed := fed d ⟨source, number⟩ raw r
      rw [feedAll] at h
      split at h
      · next p hp =>
          rw [hp] at hfed
          obtain ⟨hmalformed, hpending⟩ := hfed.rejected
          rw [ih h, hmalformed, hpending, Line.rejected, List.map_append, List.append_assoc]
          split <;> rfl
      · cases h

end Reader

/-- A reading that reports malformed lines, or that there are none, is unbroken, and
reports what the reader noted. -/
theorem Store.exists_of_reported? {d : Dialect} {source : Text} {lines : List Text} {s : Store}
    {reported : List (Nat × Text)}
    (h : Reader.reported? (s.readLines d source lines).2 = some reported) :
    ∃ q, Reader.feedAll d source 1 lines { store := s } = (q, .ok ()) ∧ q.malformed = reported ∧
      (s.readLines d source lines).2 = Reader.report source reported := by
  rw [readLines_eq_conclude] at h ⊢
  rcases hall : Reader.feedAll d source 1 lines { store := s } with ⟨q, outcome⟩
  rw [hall] at h
  cases outcome with
  | ok =>
      have hreport : Reader.reported? (Reader.report source q.malformed) = some reported := h
      rw [Reader.reported?_report, Option.some.injEq] at hreport
      subst hreport
      exact ⟨q, rfl, rfl, rfl⟩
  | error fault =>
      have hnone := Reader.reported?_of_feedAll hall
      rw [show Reader.reported? (.error fault) = some reported from h] at hnone
      cases hnone

/-- An unbroken reading reports the malformed lines, whatever it read into. -/
theorem Store.rejected_of_reported? {d : Dialect} {source : Text} {lines : List Text} {s : Store}
    {reported : List (Nat × Text)}
    (h : Reader.reported? (s.readLines d source lines).2 = some reported) :
    reported.map Prod.snd = Line.rejected d false lines := by
  obtain ⟨q, hall, rfl, -⟩ := exists_of_reported? h
  exact Reader.malformed_feedAll hall

end Ini
