import Ini.Proofs.Aborted
import Ini.Proofs.Coherent
import Mathlib.Data.Nat.Find

/-!
# Strict and lenient reading

A strict dialect does one thing differently: where a lenient one enters a section
that is there already, or stores under a key that is, it stops with a fault. Up to
the first such line the two readers are the same, step for step, and so are all
faults of other kinds. At that line the strict one has stored what stands before
it and nothing else.

What the lenient reader repeats is read off its own steps: `entered?` and
`assigned?` say what a line has it enter or store, and `Repeats` that this was
there before the line. The two step lemmas, `feed_of_repeats` and
`feed_of_not_repeats`, are all that is known of a strict step. The rest is the
search for the first line at which they part.
-/

namespace Ini

/-- The dialect in which repetitions are faults, or in which they are not. -/
def Dialect.setStrict (d : Dialect) (strict : Bool) : Dialect := { d with strict := strict }

/-- A section or a key is met a second time. -/
def Fault.isRepetition : Fault → Bool
  | .sectionExists .. | .optionExists .. => true
  | _ => false

namespace Dialect

variable (d : Dialect) (strict : Bool)

@[simp] theorem strict_setStrict : (d.setStrict strict).strict = strict := rfl

@[simp] theorem defaultSection_setStrict :
    (d.setStrict strict).defaultSection = d.defaultSection := rfl

@[simp] theorem clean_setStrict (raw : Text) :
    Line.clean (d.setStrict strict) raw = Line.clean d raw := rfl

@[simp] theorem ofCleaned_setStrict (row : Text) :
    Statement.ofCleaned (d.setStrict strict) row = Statement.ofCleaned d row := rfl

@[simp] theorem locate_setStrict (r : Reader) : r.locate (d.setStrict strict) = r.locate d := rfl

end Dialect

namespace Reader

variable {d : Dialect} {source raw name key : Text} {place : Position} {fault : Fault}
  {r q : Reader} {strict : Bool}

/-- The section that a line enters, if it enters one. -/
def entered? (d : Dialect) (place : Position) (raw : Text) (r : Reader) : Option Text :=
  match Statement.ofCleaned d (Line.clean d raw), r.feed d place raw with
  | .header _, (q, .ok ()) => if r.pending.isSome && raw.indented then none else q.current
  | _, _ => none

/-- A line has a lenient reader enter a section that is there, or store under a
key that is. The fault is what this is under a strict dialect. -/
inductive Repeats (d : Dialect) (place : Position) (raw : Text) (r : Reader) : Fault → Prop
  | entered {name : Text} (hline : r.entered? (d.setStrict false) place raw = some name)
      (hdefault : name ≠ d.defaultSection) (hhas : r.store.hasSection name = true) :
      Repeats d place raw r (.sectionExists name (some place))
  | assigned {name key : Text}
      (hline : r.assigned? (d.setStrict false) place raw = some (name, key))
      (hhas : (r.store.own? name key).isSome = true) :
      Repeats d place raw r (.optionExists name key place)

/-- A line that is neither blank nor taken into the open value. -/
def Starts (d : Dialect) (raw : Text) (r : Reader) : Prop :=
  Line.clean d raw ≠ [] ∧ (r.pending.isSome && raw.indented) = false

/-! ## What flushing does not change -/

theorem hasSection_flush (r : Reader) (name : Text) :
    r.flush.store.hasSection name = r.store.hasSection name := by
  unfold flush
  split
  · rfl
  · exact Store.hasSection_adjust ..

theorem isSome_own?_flush (r : Reader) (name key : Text) :
    (r.flush.store.own? name key).isSome = (r.store.own? name key).isSome := by
  unfold flush
  split
  · rfl
  · next p hp =>
      have h := Store.own?_adjust r.store (p.name, p.key) (some p.value) name key
      refine (congrArg Option.isSome h).trans ?_
      split
      · exact Option.isSome_map
      · rfl

theorem Located.locate_eq (h : Located d r name q) : r.locate d = some (name, q) := by
  cases h with
  | here hcurrent => simp [locate, hcurrent]
  | made hcurrent hheadless => simp [locate, hcurrent, hheadless]

/-! ## One line -/

theorem feed_of_starts (h : r.Starts d raw) (strict : Bool) (place : Position) :
    r.feed (d.setStrict strict) place raw =
      r.flush.start (d.setStrict strict) place raw (Statement.ofCleaned d (Line.clean d raw)) := by
  obtain ⟨hclean, hraw⟩ := h
  unfold feed flush
  cases hr : r.pending with
  | none => simp [hclean]
  | some p =>
      have hindented : raw.indented = false := by simpa [hr] using hraw
      simp [hclean, hindented]

/-- Other lines have nothing to do with repetitions. -/
theorem feed_of_not_starts (h : ¬r.Starts d raw) (place : Position) :
    r.feed (d.setStrict true) place raw = r.feed (d.setStrict false) place raw := by
  unfold feed
  cases hr : r.pending with
  | none =>
      have hclean : Line.clean d raw = [] := by simpa [Starts, hr] using h
      simp [hclean]
  | some p =>
      by_cases hclean : Line.clean d raw = []
      · simp only [Dialect.clean_setStrict, hclean, List.isEmpty_nil, if_true]
        rfl
      · have hindented : raw.indented = true := by simpa [Starts, hr, hclean] using h
        simp [hclean, hindented]

theorem enter_setStrict (place : Position) (raw : Text) (r : Reader) (name : Text) :
    r.enter (d.setStrict true) place raw name =
      if name ≠ [] ∧ name ≠ d.defaultSection ∧ r.store.hasSection name = true then
        (r, .error (.sectionExists name (some place)))
      else r.enter (d.setStrict false) place raw name := by
  unfold enter
  by_cases hempty : name = []
  · simp [hempty]
  · by_cases hdefault : name = d.defaultSection
    · simp [hdefault]
    · simp [hempty, hdefault]

theorem assign_setStrict (place : Position) (r : Reader) (name key : Text) (value : Option Text) :
    r.assign (d.setStrict true) place name key value =
      if (r.store.own? name key).isSome then (r, .error (.optionExists name key place))
      else r.assign (d.setStrict false) place name key value := by
  unfold assign
  cases hcontent : r.store.entries? name with
  | none => simp [Store.own?, hcontent]
  | some content => simp [Store.own?, hcontent, Table.contains]

theorem starts_of_statement {statement : Statement} (hne : statement ≠ .malformed)
    (hs : Statement.ofCleaned d (Line.clean d raw) = statement)
    (hraw : ¬(r.pending.isSome && raw.indented) = true) : r.Starts d raw := by
  refine ⟨fun hclean => hne ?_, by simpa using hraw⟩
  rw [← hs, hclean, Statement.ofCleaned_nil]

/-- What a line that starts a statement does to a lenient reader. -/
theorem started_of_starts (hstarts : r.Starts d raw) {statement : Statement}
    (hs : Statement.ofCleaned d (Line.clean d raw) = statement) (place : Position) :
    Started (d.setStrict false) place raw r.flush statement
      (r.feed (d.setStrict false) place raw) := by
  rw [feed_of_starts hstarts, hs]
  exact started ..

theorem entered?_eq_some_iff :
    r.entered? (d.setStrict false) place raw = some name ↔
      r.Starts d raw ∧ Statement.ofCleaned d (Line.clean d raw) = .header name ∧ name ≠ [] := by
  constructor
  · intro h
    unfold entered? at h
    split at h
    · next other q hs hfeed =>
        rw [Dialect.ofCleaned_setStrict, Dialect.clean_setStrict] at hs
        split at h
        · cases h
        · next hraw =>
            have hstarts := starts_of_statement (by simp) hs hraw
            have hstarted := started_of_starts hstarts hs place
            rw [hfeed] at hstarted
            cases hstarted with
            | nameless => cases h
            | defaults hne | opened hne =>
                cases h
                exact ⟨hstarts, hs, hne⟩
    · cases h
  · rintro ⟨hstarts, hs, hne⟩
    have hstarted := started_of_starts hstarts hs place
    simp only [entered?, Dialect.clean_setStrict, Dialect.ofCleaned_setStrict, hs, hstarts.2]
    generalize r.feed (d.setStrict false) place raw = result at hstarted ⊢
    cases hstarted with
    | nameless => exact absurd rfl hne
    | defaults | opened => rfl
    | repeated _ hstrict => cases hstrict
    | homeless hheader => exact absurd rfl (hheader name)

theorem assigned?_eq_some_iff :
    r.assigned? (d.setStrict false) place raw = some (name, key) ↔
      r.Starts d raw ∧ ∃ value q, Statement.ofCleaned d (Line.clean d raw) = .entry key value ∧
        r.flush.locate d = some (name, q) ∧ (q.store.entries? name).isSome = true := by
  constructor
  · intro h
    unfold assigned? at h
    split at h
    · next other value q hs hfeed =>
        rw [Dialect.ofCleaned_setStrict, Dialect.clean_setStrict] at hs
        split at h
        · cases h
        · next hraw =>
            have hstarts := starts_of_statement (by simp) hs hraw
            have hstarted := started_of_starts hstarts hs place
            rw [hfeed] at hstarted
            cases hstarted with
            | @assigned home key value q content hq hcontent =>
                rw [hq.current_eq] at h
                cases h
                exact ⟨hstarts, value, q, hs, hq.locate_eq, by simp [hcontent]⟩
    · cases h
  · rintro ⟨hstarts, value, q, hs, hlocate, hsome⟩
    obtain ⟨content, hcontent⟩ := Option.isSome_iff_exists.1 hsome
    have hfeed := feed_of_starts hstarts false place
    rw [hs] at hfeed
    simp only [start, Dialect.locate_setStrict, hlocate, assign, hcontent,
      Dialect.strict_setStrict, Bool.and_false] at hfeed
    simp [assigned?, hs, hfeed, hstarts.2, (located hlocate).current_eq]

theorem feed_of_repeats (h : r.Repeats d place raw fault) :
    (r.feed (d.setStrict true) place raw).2 = .error fault := by
  cases h with
  | entered hline hdefault hhas =>
      obtain ⟨hstarts, hs, hne⟩ := entered?_eq_some_iff.1 hline
      rw [← hasSection_flush] at hhas
      rw [feed_of_starts hstarts, hs, start, enter_setStrict, if_pos ⟨hne, hdefault, hhas⟩]
  | assigned hline hhas =>
      obtain ⟨hstarts, value, q, hs, hlocate, hsome⟩ := assigned?_eq_some_iff.1 hline
      rw [← isSome_own?_flush, ← (located hlocate).own?_eq] at hhas
      simp only [feed_of_starts hstarts, hs, start, Dialect.locate_setStrict, hlocate,
        assign_setStrict, hhas, if_true]

theorem feed_of_not_repeats (h : ∀ fault, ¬r.Repeats d place raw fault) :
    r.feed (d.setStrict true) place raw = r.feed (d.setStrict false) place raw := by
  by_cases hstarts : r.Starts d raw
  · rw [feed_of_starts hstarts, feed_of_starts hstarts]
    cases hs : Statement.ofCleaned d (Line.clean d raw) with
    | header name =>
        rw [start, start, enter_setStrict, if_neg]
        rintro ⟨hne, hdefault, hhas⟩
        rw [hasSection_flush] at hhas
        exact h _ (.entered (entered?_eq_some_iff.2 ⟨hstarts, hs, hne⟩) hdefault hhas)
    | entry key value =>
        simp only [start, Dialect.locate_setStrict]
        split
        · rfl
        · next name q hlocate =>
            rw [assign_setStrict, if_neg]
            intro hown
            have hsome : (q.store.entries? name).isSome = true := Option.isSome_of_isSome_bind hown
            rw [(located hlocate).own?_eq, isSome_own?_flush] at hown
            exact h _ (.assigned
              (assigned?_eq_some_iff.2 ⟨hstarts, value, q, hs, hlocate, hsome⟩) hown)
    | malformed => rfl
  · exact feed_of_not_starts hstarts place

/-! ## Many lines -/

/-- As long as nothing is repeated the two readers are the same. -/
theorem feedAll_of_not_repeats {lines : List Text} :
    ∀ {number : Nat} {r : Reader},
      (∀ front raw back q fault, lines = front ++ raw :: back →
        r.feedAll (d.setStrict false) source number front = (q, .ok ()) →
          ¬q.Repeats d ⟨source, number + front.length⟩ raw fault) →
      r.feedAll (d.setStrict true) source number lines =
        r.feedAll (d.setStrict false) source number lines := by
  induction lines with
  | nil =>
      intro number r _
      rfl
  | cons raw rest ih =>
      intro number r h
      have hfeed : r.feed (d.setStrict true) ⟨source, number⟩ raw =
          r.feed (d.setStrict false) ⟨source, number⟩ raw :=
        feed_of_not_repeats fun fault => h [] raw rest r fault rfl rfl
      rw [feedAll, feedAll, hfeed]
      split
      · next q hq =>
          refine ih fun front line back p fault hlines hfront hrepeats => ?_
          refine h (raw :: front) line back p fault (by rw [hlines]; rfl) ?_ ?_
          · rw [feedAll, hq]
            exact hfront
          · rwa [List.length_cons, Nat.add_comm front.length, ← Nat.add_assoc]
      · rfl

end Reader

namespace Store

variable {d : Dialect} {source : Text} {lines front back : List Text} {number : Nat} {fault : Fault}
  {s : Store}

/-- The lenient reading comes to a line that repeats something, which a strict
dialect takes for this fault. -/
def RepeatsAt (d : Dialect) (source : Text) (lines : List Text) (s : Store) (number : Nat)
    (fault : Fault) : Prop :=
  ∃ front raw back r, lines = front ++ raw :: back ∧ number = 1 + front.length ∧
    Reader.feedAll (d.setStrict false) source 1 front { store := s } = (r, .ok ()) ∧
    r.Repeats d ⟨source, number⟩ raw fault

/-- No line before it repeats anything. -/
def FirstRepeatsAt (d : Dialect) (source : Text) (lines : List Text) (s : Store) (number : Nat)
    (fault : Fault) : Prop :=
  s.RepeatsAt d source lines number fault ∧
    ∀ earlier < number, ∀ other, ¬s.RepeatsAt d source lines earlier other

theorem exists_firstRepeatsAt (h : s.RepeatsAt d source lines number fault) :
    ∃ first other, s.FirstRepeatsAt d source lines first other := by
  classical
  have hexists : ∃ number fault, s.RepeatsAt d source lines number fault := ⟨number, fault, h⟩
  obtain ⟨other, hother⟩ := Nat.find_spec hexists
  exact ⟨Nat.find hexists, other, hother,
    fun earlier hlt other hearlier => Nat.find_min hexists hlt ⟨other, hearlier⟩⟩

theorem feedAll_of_not_repeatsAt (hlines : lines = front ++ back)
    (h : ∀ number ≤ front.length, ∀ fault, ¬s.RepeatsAt d source lines number fault) :
    Reader.feedAll (d.setStrict true) source 1 front { store := s } =
      Reader.feedAll (d.setStrict false) source 1 front { store := s } := by
  refine Reader.feedAll_of_not_repeats fun before raw after q fault hfront hq hrepeats => ?_
  have hle : 1 + before.length ≤ front.length := by
    rw [hfront, List.length_append, List.length_cons]
    omega
  refine h _ hle fault ⟨before, raw, after ++ back, q, ?_, rfl, hq, hrepeats⟩
  rw [hlines, hfront, List.append_assoc, List.cons_append]

/-- At the first repetition the strict reading stops, with what the lenient one
has stored so far. -/
theorem readLines_of_firstRepeatsAt (hname : s.defaultName ≠ unnamedSection)
    (h : s.FirstRepeatsAt d source lines number fault) :
    s.readLines (d.setStrict true) source lines =
      ((s.readLines (d.setStrict false) source (lines.take (number - 1))).1, .error fault) := by
  obtain ⟨⟨front, raw, back, r, hlines, rfl, hfront, hrepeats⟩, hfirst⟩ := h
  have hsame := feedAll_of_not_repeatsAt hlines fun number hle =>
    hfirst number (by omega)
  obtain ⟨q, hq⟩ : ∃ q, r.feed (d.setStrict true) ⟨source, 1 + front.length⟩ raw =
      (q, .error fault) := ⟨_, Prod.ext rfl (Reader.feed_of_repeats hrepeats)⟩
  have hstore : q.store = r.flush.store := by
    have hkept := Reader.defaultName_feedAll (d.setStrict false) source 1 front { store := s }
    rw [hfront] at hkept
    have hfed := Reader.fed (d.setStrict true) ⟨source, 1 + front.length⟩ raw r
    rw [hq] at hfed
    exact hfed.store_of_error (hkept ▸ hname)
  rw [hlines, Nat.add_sub_cancel_left, List.take_left, readLines_eq_conclude,
    readLines_eq_conclude, Reader.feedAll_append, hsame, hfront]
  simp only [Reader.feedAll, hq, Reader.conclude, hstore]
  rfl

theorem readLines_of_not_repeatsAt (h : ∀ number fault, ¬s.RepeatsAt d source lines number fault) :
    s.readLines (d.setStrict true) source lines = s.readLines (d.setStrict false) source lines := by
  rw [readLines_eq_conclude, readLines_eq_conclude,
    feedAll_of_not_repeatsAt (List.append_nil lines).symm fun number _ => h number]

/-- Of the faults of a lenient reading none is a repetition. -/
theorem readLines_setStrict_cases (hs : s.defaultName = d.defaultSection) (source : Text)
    (lines : List Text) :
    (s.readLines (d.setStrict false) source lines).2 = .ok () ∨
      (∃ malformed, (s.readLines (d.setStrict false) source lines).2 =
        .error (.malformedLines source malformed)) ∨
      ∃ number raw, (s.readLines (d.setStrict false) source lines).2 =
        .error (.noHeader ⟨source, number⟩ raw) := by
  cases h : (s.readLines (d.setStrict false) source lines).2 with
  | ok => exact .inl rfl
  | error fault =>
      rcases fatal_of_readLines_error (d := d.setStrict false) hs h with
        ⟨number, raw, -, hfatal⟩ | ⟨malformed, -, rfl⟩
      · cases hfatal with
        | sectionExists hstrict | optionExists hstrict => cases hstrict
        | noHeader => exact .inr (.inr ⟨_, _, rfl⟩)
      · exact .inr (.inl ⟨malformed, rfl⟩)

theorem RepeatsAt.fault_eq (h : s.RepeatsAt d source lines number fault) :
    fault.isRepetition = true ∧ fault.position? = some ⟨source, number⟩ := by
  obtain ⟨front, raw, back, r, -, -, -, hrepeats⟩ := h
  cases hrepeats <;> exact ⟨rfl, rfl⟩

theorem readLines_eq_error_iff (hs : s.defaultName = d.defaultSection)
    (hname : d.defaultSection ≠ unnamedSection) (hfault : fault.isRepetition = true) :
    (s.readLines (d.setStrict true) source lines).2 = .error fault ↔
      ∃ number, s.FirstRepeatsAt d source lines number fault := by
  rw [← hs] at hname
  constructor
  · intro h
    by_cases hrepeats : ∃ number other, s.RepeatsAt d source lines number other
    · obtain ⟨number, other, hother⟩ := hrepeats
      obtain ⟨first, other, hfirst⟩ := exists_firstRepeatsAt hother
      rw [readLines_of_firstRepeatsAt hname hfirst] at h
      cases h
      exact ⟨first, hfirst⟩
    · have hsame := readLines_of_not_repeatsAt fun number other hother =>
        hrepeats ⟨number, other, hother⟩
      rw [hsame] at h
      rcases readLines_setStrict_cases hs source lines with hok | ⟨_, hother⟩ | ⟨_, _, hother⟩
      · rw [hok] at h
        cases h
      · rw [hother] at h
        cases h
        cases hfault
      · rw [hother] at h
        cases h
        cases hfault
  · rintro ⟨number, hfirst⟩
    rw [readLines_of_firstRepeatsAt hname hfirst]

/-- A strict reading stops at the first line at which the lenient reading enters a
section or stores under a key that is there, and what it leaves is what the
lenient reading of the lines before leaves. If there is no such line, the two are
the same. -/
theorem read_setStrict (hs : s.defaultName = d.defaultSection)
    (hname : d.defaultSection ≠ unnamedSection) (source text : Text) :
    (∀ name place, (s.read (d.setStrict true) source text).2 = .error (.sectionExists name place) ↔
      ∃ number, place = some ⟨source, number⟩ ∧
        s.FirstRepeatsAt d source text.lines number (.sectionExists name place)) ∧
    (∀ name key place,
      (s.read (d.setStrict true) source text).2 = .error (.optionExists name key place) ↔
        ∃ number, place = ⟨source, number⟩ ∧
          s.FirstRepeatsAt d source text.lines number (.optionExists name key place)) ∧
    (∀ number fault, s.FirstRepeatsAt d source text.lines number fault →
      (s.read (d.setStrict true) source text).1 =
        (s.readLines (d.setStrict false) source (text.lines.take (number - 1))).1) ∧
    ((∀ fault, (s.read (d.setStrict true) source text).2 = .error fault →
        fault.isRepetition = false) →
      s.read (d.setStrict true) source text = s.read (d.setStrict false) source text ∧
      ((s.read (d.setStrict false) source text).2 = .ok () ∨
        (∃ malformed, (s.read (d.setStrict false) source text).2 =
          .error (.malformedLines source malformed)) ∨
        ∃ number raw, (s.read (d.setStrict false) source text).2 =
          .error (.noHeader ⟨source, number⟩ raw))) := by
  have hplace : ∀ fault : Fault, fault.isRepetition = true →
      ((s.read (d.setStrict true) source text).2 = .error fault ↔
        ∃ number, fault.position? = some ⟨source, number⟩ ∧
          s.FirstRepeatsAt d source text.lines number fault) := by
    intro fault hfault
    refine (readLines_eq_error_iff hs hname hfault).trans ?_
    exact exists_congr fun number => ⟨fun h => ⟨h.1.fault_eq.2, h⟩, fun h => h.2⟩
  refine ⟨fun name place => hplace _ rfl, fun name key place => ?_, fun number fault h => ?_,
    fun h => ⟨?_, readLines_setStrict_cases hs source text.lines⟩⟩
  · simpa [Fault.position?] using hplace (.optionExists name key place) rfl
  · rw [read_eq_readLines, readLines_of_firstRepeatsAt (hs ▸ hname) h]
  · refine readLines_of_not_repeatsAt fun number fault hrepeats => ?_
    obtain ⟨first, other, hfirst⟩ := exists_firstRepeatsAt hrepeats
    have hfault := hfirst.1.fault_eq.1
    rw [h other ((readLines_eq_error_iff hs hname hfault).2 ⟨first, hfirst⟩)] at hfault
    cases hfault

/-- A text that stores under a key it has stored under before, in a section of its
own, and then enters a section that is there already. -/
def recurring : Text := "[b]\ny = 1\n\tz\nY : 2\n[a]".toList

/-- A section from an earlier text. -/
def prior : Store := ⟨defaultSectionName, [], [("a".toList, [("x".toList, some "1".toList)])]⟩

theorem read_setStrict_recurring :
    prior.defaultName = Dialect.standard.defaultSection ∧
      Dialect.standard.defaultSection ≠ unnamedSection ∧
      prior.FirstRepeatsAt .standard [] recurring.lines 4
        (.optionExists "b".toList "y".toList ⟨[], 4⟩) ∧
      (prior.read (Dialect.standard.setStrict true) [] recurring).1.own? "b".toList "y".toList =
        some (some "1\nz".toList) ∧
      prior.read (Dialect.standard.setStrict true) [] "[b]\n[DEFAULT]\n?".toList =
        prior.read (Dialect.standard.setStrict false) [] "[b]\n[DEFAULT]\n?".toList := by
  have hs : prior.defaultName = Dialect.standard.defaultSection := rfl
  have hname : Dialect.standard.defaultSection ≠ unnamedSection := by decide
  obtain ⟨-, hoption, hstore, -⟩ := read_setStrict hs hname [] recurring
  have hfault : (prior.read (Dialect.standard.setStrict true) [] recurring).2 =
      .error (.optionExists "b".toList "y".toList ⟨[], 4⟩) := rfl
  obtain ⟨number, hplace, hfirst⟩ := (hoption _ _ _).1 hfault
  cases hplace
  refine ⟨hs, hname, hfirst, ?_, ?_⟩
  · rw [hstore 4 _ hfirst]
    rfl
  · refine ((read_setStrict hs hname [] "[b]\n[DEFAULT]\n?".toList).2.2.2 fun fault h => ?_).1
    have hlines : (prior.read (Dialect.standard.setStrict true) [] "[b]\n[DEFAULT]\n?".toList).2 =
        .error (.malformedLines [] [(3, "?".toList)]) := rfl
    rw [hlines] at h
    cases h
    rfl

end Store

end Ini
