import Ini.Proofs.Step

/-!
# What a fault leaves

A reading that breaks off has stored what stands before the line at fault and
nothing of that line. The open value is stored first, whatever the line turns
out to be, and the checks come before anything else is. One thing is stored
before a check: a line without a header makes the unnamed section, and only then
is its key looked up. A section that was just made owns no key, so no fault
follows. This is where it matters that the unnamed section is not the defaults,
which may well own it.

A malformed line stores nothing of its own either, apart from that section.
-/

namespace Ini

/-- Whether a header is stated. -/
def Statement.isHeader : Statement → Bool
  | header _ => true
  | _ => false

namespace Reader

variable {d : Dialect} {source raw name : Text} {place : Position} {statement : Statement}
  {fault : Fault} {r q : Reader} {result : Reader × Except Fault Unit}

/-- The unnamed section made here owns no key that could be a repetition. -/
theorem Located.store_of_contains (h : Located d r name q)
    (hname : r.store.defaultName ≠ unnamedSection) {content : Entries} {key : Text}
    (hcontent : q.store.entries? name = some content) (hhas : content.contains key = true) :
    q.store = r.store := by
  cases h with
  | here => rfl
  | made =>
      by_cases hsection : r.store.hasSection unnamedSection = true
      · exact if_pos hsection
      · have hnone : r.store.entries? unnamedSection = none := by
          rw [Store.entries?, if_neg hname.symm]
          simpa [Store.hasSection, Table.contains] using hsection
        rw [Store.entries?_insertSection, if_pos ⟨rfl, hnone⟩] at hcontent
        cases hcontent
        cases hhas

theorem Started.store_of_error (h : Started d place raw r statement (q, .error fault))
    (hname : r.store.defaultName ≠ unnamedSection) : q.store = r.store := by
  cases h with
  | repeated | homeless => rfl
  | duplicate hq hcontent hhas => exact hq.store_of_contains hname hcontent hhas
  | lost hq hcontent =>
      cases hq with
      | here => rfl
      | made =>
          have hsome := Store.isSome_entries?_insertSection (s := r.store) unnamedSection
          rw [hcontent] at hsome
          cases hsome

theorem Fed.store_of_error (h : Fed d place raw r (q, .error fault))
    (hname : r.store.defaultName ≠ unnamedSection) : q.store = r.flush.store := by
  cases h with
  | started hclean hraw h => exact h.store_of_error (by simpa using hname)

/-- The faults of a line: those it has itself have its place. -/
theorem Started.position?_of_error (h : Started d place raw r statement (q, .error fault)) :
    fault.position? = some place ∨ ∃ name, fault = .noSection name := by
  cases h with
  | repeated | homeless | duplicate => exact .inl rfl
  | lost => exact .inr ⟨_, rfl⟩

theorem Fed.position?_of_error (h : Fed d place raw r (q, .error fault)) :
    fault.position? = some place ∨ ∃ name, fault = .noSection name := by
  cases h with
  | started hclean hraw h => exact h.position?_of_error

theorem Started.malformed_cases (h : Started d place raw r statement result) :
    result.1.malformed = r.malformed ∨
      result.1.malformed = r.malformed ++ [(place.line, raw)] ∧ result.2 = .ok () ∧
        result.1.store =
          if d.headless && r.current.isNone && !statement.isHeader then
            r.store.insertSection unnamedSection
          else r.store := by
  cases h with
  | nameless => exact .inr ⟨rfl, rfl, by simp [reject, Statement.isHeader]⟩
  | defaults | opened | repeated | homeless => exact .inl rfl
  | assigned hq | duplicate hq | lost hq => exact .inl hq.malformed_eq
  | malformed hq =>
      refine .inr ⟨?_, rfl, ?_⟩
      · rw [reject, hq.malformed_eq]
      · cases hq with
        | here hcurrent => simp [reject, hcurrent]
        | made hcurrent hheadless => simp [reject, hcurrent, hheadless, Statement.isHeader]

/-- What a line noted as malformed stores: the value before it and, where entries
have no section yet, the unnamed section. -/
theorem Fed.store_of_malformed (h : Fed d place raw r result)
    (hmalformed : result.1.malformed ≠ r.malformed) :
    result.1.malformed = r.malformed ++ [(place.line, raw)] ∧ result.2 = .ok () ∧
      result.1.store =
        if d.headless && r.current.isNone &&
            !(Statement.ofCleaned d (Line.clean d raw)).isHeader then
          r.flush.store.insertSection unnamedSection
        else r.flush.store := by
  cases h with
  | idle | gap | row => exact absurd rfl hmalformed
  | started hclean hraw h =>
      have hcases := h.malformed_cases
      rw [malformed_flush, current_flush] at hcases
      exact hcases.resolve_left hmalformed

end Reader

namespace Store

variable {d : Dialect} {source : Text} {lines : List Text} {fault : Fault} {s : Store}

/-- Apart from the report at the end, a fault is met by a line. -/
theorem exists_of_readLines_error (h : (s.readLines d source lines).2 = .error fault)
    (hfatal : ∀ malformed, fault ≠ .malformedLines source malformed) :
    ∃ q, Reader.feedAll d source 1 lines { store := s } = (q, .error fault) := by
  rw [readLines_eq_conclude] at h
  generalize Reader.feedAll d source 1 lines { store := s } = result at h ⊢
  obtain ⟨q, outcome⟩ := result
  cases outcome with
  | error other =>
      cases h
      exact ⟨q, rfl⟩
  | ok =>
      rw [Reader.conclude, Reader.finish] at h
      split at h
      · cases h
      · cases h
        exact absurd rfl (hfatal q.malformed)

/-- A reading that a line breaks off leaves what reading the lines before it to
the end leaves. -/
theorem readLines_of_fault (hs : s.defaultName ≠ unnamedSection)
    (h : (s.readLines d source lines).2 = .error fault)
    (hfatal : ∀ malformed, fault ≠ .malformedLines source malformed) :
    ∃ number, 1 ≤ number ∧ number ≤ lines.length ∧
      (fault.position? = some ⟨source, number⟩ ∨ ∃ name, fault = .noSection name) ∧
      (s.readLines d source lines).1 = (s.readLines d source (lines.take (number - 1))).1 ∧
      ∀ other, (s.readLines d source (lines.take (number - 1))).2 = .error other →
        ∃ malformed, other = .malformedLines source malformed := by
  obtain ⟨q, hall⟩ := exists_of_readLines_error h hfatal
  obtain ⟨front, raw, back, p, rfl, hfront, hraw⟩ := Reader.exists_of_feedAll_error hall
  -- The reader `p` that meets the line at fault is the one that reading `front` ends with.
  have hfed : Reader.Fed d ⟨source, 1 + front.length⟩ raw p (q, .error fault) :=
    hraw ▸ Reader.fed ..
  have hname : p.store.defaultName ≠ unnamedSection := by
    have hkept := Reader.defaultName_feedAll d source 1 front { store := s }
    rw [hfront] at hkept
    exact hkept ▸ hs
  have hle : 1 + front.length ≤ (front ++ raw :: back).length := by
    rw [List.length_append, List.length_cons]
    omega
  refine ⟨1 + front.length, by omega, hle, hfed.position?_of_error, ?_⟩
  rw [Nat.add_sub_cancel_left, List.take_left, readLines_eq_conclude, readLines_eq_conclude, hall,
    hfront]
  refine ⟨hfed.store_of_error hname, fun other hother => ?_⟩
  rw [Reader.conclude, Reader.finish] at hother
  split at hother
  · cases hother
  · cases hother
    exact ⟨p.malformed, rfl⟩

/-- Whatever is wrong with a line, the store holds what stands before it. It is
all that, if the line breaks the reading off; if the line is noted as malformed,
the unnamed section may be new. -/
theorem readLines_commits (hs : s.defaultName ≠ unnamedSection) (d : Dialect) (source : Text)
    (lines : List Text) :
    (∀ fault, (s.readLines d source lines).2 = .error fault →
      (∀ malformed, fault ≠ .malformedLines source malformed) →
        ∃ number, 1 ≤ number ∧ number ≤ lines.length ∧
          (fault.position? = some ⟨source, number⟩ ∨ ∃ name, fault = .noSection name) ∧
          (s.readLines d source lines).1 = (s.readLines d source (lines.take (number - 1))).1 ∧
          ∀ other, (s.readLines d source (lines.take (number - 1))).2 = .error other →
            ∃ malformed, other = .malformedLines source malformed) ∧
    ∀ (r : Reader) (place : Position) (raw : Text),
      (r.feed d place raw).1.malformed ≠ r.malformed →
        (r.feed d place raw).1.malformed = r.malformed ++ [(place.line, raw)] ∧
          (r.feed d place raw).2 = .ok () ∧
          (r.feed d place raw).1.store =
            if d.headless && r.current.isNone &&
                !(Statement.ofCleaned d (Line.clean d raw)).isHeader then
              r.flush.store.insertSection unnamedSection
            else r.flush.store :=
  ⟨fun _ h hfatal => readLines_of_fault hs h hfatal,
    fun r place raw hmalformed => (Reader.fed d place raw r).store_of_malformed hmalformed⟩

/-- A repetition in the last line, behind a value of two lines. -/
def repetition : List Text := ["[a]", "k = 1", "\t2", "=", "K: 3"].map String.toList

theorem readLines_commits_repetition :
    defaultSectionName ≠ unnamedSection ∧
      (readLines .standard [] repetition ⟨defaultSectionName, [], []⟩).2 =
        .error (.optionExists "a".toList "k".toList ⟨[], 5⟩) ∧
      (readLines .standard [] repetition ⟨defaultSectionName, [], []⟩).1 =
        (readLines .standard [] (repetition.take 4) ⟨defaultSectionName, [], []⟩).1 := by
  have hs : defaultSectionName ≠ unnamedSection := by decide
  have hfault : (readLines .standard [] repetition ⟨defaultSectionName, [], []⟩).2 =
      .error (.optionExists "a".toList "k".toList ⟨[], 5⟩) := rfl
  have hcommits := readLines_commits (s := ⟨defaultSectionName, [], []⟩) hs .standard [] repetition
  obtain ⟨number, -, -, hplace, hstore, -⟩ := hcommits.1 _ hfault (by simp)
  refine ⟨hs, hfault, ?_⟩
  rcases hplace with hplace | ⟨name, hname⟩
  · cases hplace
    exact hstore
  · cases hname

end Store

end Ini
