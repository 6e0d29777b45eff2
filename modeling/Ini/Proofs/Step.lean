import Ini.Reader

/-!
# What a line does

A line does one of a few things to a reader. It is blank, or it goes to the
value before it, or it starts a statement, which first ends that value.
`Reader.Fed` lists these, and `Reader.Started` lists what a statement can do,
each with the conditions under which it does it. Proofs about reading go by
cases over the two lists and open neither `feed` nor what it calls.

What many lines do then follows by induction: `feedAll_keeps` for what every
line keeps, and `exists_of_feedAll_error` for where a fault stops them.
-/

namespace Ini

namespace Reader

variable {d : Dialect} {source raw name : Text} {place : Position} {statement : Statement}
  {fault : Fault} {r q : Reader} {result : Reader × Except Fault Unit}

/-! ## One line -/

/-- The section that entries go to, and the reader that goes on with it. -/
inductive Located (d : Dialect) (r : Reader) : Text → Reader → Prop
  | here {name : Text} (hcurrent : r.current = some name) : Located d r name r
  | made (hcurrent : r.current = none) (hheadless : d.headless = true) :
      Located d r unnamedSection
        { r with store := r.store.insertSection unnamedSection, current := some unnamedSection }

/-- What a statement does to a reader without an open value. -/
inductive Started (d : Dialect) (place : Position) (raw : Text) (r : Reader) :
    Statement → Reader × Except Fault Unit → Prop
  | nameless : Started d place raw r (.header [])
      ({ r with current := none }.reject place raw, .ok ())
  | defaults (hne : d.defaultSection ≠ []) : Started d place raw r (.header d.defaultSection)
      ({ r with current := some d.defaultSection }, .ok ())
  | opened {name : Text} (hne : name ≠ []) (hdefault : name ≠ d.defaultSection)
      (hnew : ¬(r.store.hasSection name = true ∧ d.strict = true)) :
      Started d place raw r (.header name)
        ({ r with store := r.store.insertSection name, current := some name }, .ok ())
  | repeated {name : Text} (hhas : r.store.hasSection name = true) (hstrict : d.strict = true) :
      Started d place raw r (.header name) (r, .error (.sectionExists name (some place)))
  | homeless {statement : Statement} (hs : ∀ name, statement ≠ .header name)
      (hcurrent : r.current = none) (hheadless : d.headless = false) :
      Started d place raw r statement (r, .error (.noHeader place raw))
  | assigned {name key : Text} {value : Option Text} {q : Reader} {content : Entries}
      (hq : Located d r name q) (hcontent : q.store.entries? name = some content)
      (hnew : ¬(content.contains key = true ∧ d.strict = true)) :
      Started d place raw r (.entry key value)
        ({ q with
            store := q.store.put name key value
            pending := value.map fun first => ⟨name, key, [first]⟩ }, .ok ())
  | duplicate {name key : Text} {value : Option Text} {q : Reader} {content : Entries}
      (hq : Located d r name q) (hcontent : q.store.entries? name = some content)
      (hhas : content.contains key = true) (hstrict : d.strict = true) :
      Started d place raw r (.entry key value) (q, .error (.optionExists name key place))
  | lost {name key : Text} {value : Option Text} {q : Reader}
      (hq : Located d r name q) (hcontent : q.store.entries? name = none) :
      Started d place raw r (.entry key value) (q, .error (.noSection name))
  | malformed {name : Text} {q : Reader} (hq : Located d r name q) :
      Started d place raw r .malformed (q.reject place raw, .ok ())

/-- What a line does to a reader. -/
inductive Fed (d : Dialect) (place : Position) (raw : Text) (r : Reader) :
    Reader × Except Fault Unit → Prop
  | idle (hclean : Line.clean d raw = []) (hr : r.pending = none) : Fed d place raw r (r, .ok ())
  | gap {p : Pending} (hclean : Line.clean d raw = []) (hr : r.pending = some p) :
      Fed d place raw r
        ({ r with pending := if d.blankLinesInValues then some (p.push []) else none }, .ok ())
  | row {p : Pending} (hclean : Line.clean d raw ≠ []) (hraw : raw.indented = true)
      (hr : r.pending = some p) :
      Fed d place raw r ({ r with pending := some (p.push (Line.clean d raw)) }, .ok ())
  | started {result : Reader × Except Fault Unit} (hclean : Line.clean d raw ≠ [])
      (hraw : ∀ p, r.pending = some p → raw.indented = false)
      (h : Started d place raw r.flush (Statement.ofCleaned d (Line.clean d raw)) result) :
      Fed d place raw r result

theorem located (h : r.locate d = some (name, q)) : Located d r name q := by
  unfold locate at h
  split at h
  · next hcurrent =>
      cases h
      exact .here hcurrent
  · next hcurrent =>
      split at h
      · next hheadless =>
          cases h
          exact .made hcurrent hheadless
      · cases h

theorem homeless_of_locate (h : r.locate d = none) : r.current = none ∧ d.headless = false := by
  unfold locate at h
  split at h
  · cases h
  · next hcurrent =>
      split at h
      · cases h
      · next hheadless => exact ⟨hcurrent, by simpa using hheadless⟩

theorem started (d : Dialect) (place : Position) (raw : Text) (statement : Statement) (r : Reader) :
    Started d place raw r statement (r.start d place raw statement) := by
  unfold start
  split
  · next name =>
      unfold enter
      split
      · next hne =>
          obtain rfl : name = [] := by simpa using hne
          exact .nameless
      · next hne =>
          have hne' : name ≠ [] := by simpa using hne
          split
          · next hdefault =>
              subst hdefault
              exact .defaults hne'
          · next hdefault =>
              split
              · next hdup =>
                  rw [Bool.and_eq_true] at hdup
                  exact .repeated hdup.1 hdup.2
              · next hdup => exact .opened hne' hdefault (by simpa using hdup)
  · next key value =>
      split
      · next hlocate =>
          obtain ⟨hcurrent, hheadless⟩ := homeless_of_locate hlocate
          exact .homeless (by simp) hcurrent hheadless
      · next name q hlocate =>
          unfold assign
          split
          · next hcontent => exact .lost (located hlocate) hcontent
          · next content hcontent =>
              split
              · next hdup =>
                  rw [Bool.and_eq_true] at hdup
                  exact .duplicate (located hlocate) hcontent hdup.1 hdup.2
              · next hdup => exact .assigned (located hlocate) hcontent (by simpa using hdup)
  · split
    · next hlocate =>
        obtain ⟨hcurrent, hheadless⟩ := homeless_of_locate hlocate
        exact .homeless (by simp) hcurrent hheadless
    · next name q hlocate => exact .malformed (located hlocate)

theorem fed (d : Dialect) (place : Position) (raw : Text) (r : Reader) :
    Fed d place raw r (r.feed d place raw) := by
  unfold feed
  split
  · next hr =>
      by_cases hclean : Line.clean d raw = []
      · have h : Fed d place raw r (r, .ok ()) := .idle hclean hr
        simpa [hclean] using h
      · have hflush : r.flush = r := by simp [flush, hr]
        have h := started d place raw (Statement.ofCleaned d (Line.clean d raw)) r
        simp only [List.isEmpty_iff, hclean, if_false]
        exact .started hclean (by simp [hr]) (hflush.symm ▸ h)
  · next p hr =>
      by_cases hclean : Line.clean d raw = []
      · have h : Fed d place raw r
            ({ r with pending := if d.blankLinesInValues then some (p.push []) else none },
              .ok ()) :=
          .gap hclean hr
        simpa [hclean] using h
      · by_cases hraw : raw.indented = true
        · have h : Fed d place raw r
              ({ r with pending := some (p.push (Line.clean d raw)) }, .ok ()) :=
            .row hclean hraw hr
          simpa [hclean, hraw] using h
        · have h := started d place raw (Statement.ofCleaned d (Line.clean d raw)) r.flush
          simp only [List.isEmpty_iff, hclean, hraw, if_false]
          exact .started hclean (fun _ _ => by simpa using hraw) h

/-! ## What stays -/

@[simp] theorem pending_flush (r : Reader) : r.flush.pending = none := by
  unfold flush
  split
  · assumption
  · rfl

@[simp] theorem current_flush (r : Reader) : r.flush.current = r.current := by
  unfold flush
  split <;> rfl

@[simp] theorem malformed_flush (r : Reader) : r.flush.malformed = r.malformed := by
  unfold flush
  split <;> rfl

@[simp] theorem defaultName_flush (r : Reader) :
    r.flush.store.defaultName = r.store.defaultName := by
  unfold flush
  split
  · rfl
  · exact Store.defaultName_adjust ..

theorem Located.pending_eq (h : Located d r name q) : q.pending = r.pending := by
  cases h <;> rfl

theorem Located.malformed_eq (h : Located d r name q) : q.malformed = r.malformed := by
  cases h <;> rfl

theorem Located.defaultName_eq (h : Located d r name q) :
    q.store.defaultName = r.store.defaultName := by
  cases h with
  | here => rfl
  | made => exact Store.defaultName_insertSection ..

theorem Started.defaultName_eq (h : Started d place raw r statement result) :
    result.1.store.defaultName = r.store.defaultName := by
  cases h with
  | nameless | defaults | repeated | homeless => rfl
  | opened => exact Store.defaultName_insertSection ..
  | assigned hq =>
      rw [← hq.defaultName_eq]
      exact Store.defaultName_put ..
  | duplicate hq | lost hq | malformed hq => exact hq.defaultName_eq

theorem Fed.defaultName_eq (h : Fed d place raw r result) :
    result.1.store.defaultName = r.store.defaultName := by
  cases h with
  | idle | gap | row => rfl
  | started hclean hraw h => rw [h.defaultName_eq, defaultName_flush]

/-! ## Many lines -/

/-- What each of some lines keeps, all of them keep. -/
theorem feedAll_keeps_of_mem {P : Reader → Prop} (source : Text) {lines : List Text}
    (hstep : ∀ raw ∈ lines, ∀ place r, P r → P (r.feed d place raw).1) :
    ∀ (number : Nat) {r : Reader}, P r → P (r.feedAll d source number lines).1 := by
  induction lines with
  | nil =>
      intro number r hr
      exact hr
  | cons raw rest ih =>
      intro number r hr
      have hnext := hstep raw List.mem_cons_self ⟨source, number⟩ r hr
      rw [feedAll]
      split
      · next heq =>
          rw [heq] at hnext
          exact ih (fun line hline => hstep line (List.mem_cons_of_mem _ hline)) (number + 1) hnext
      · next heq =>
          rw [heq] at hnext
          exact hnext

/-- What every line keeps, any number of lines keep. -/
theorem feedAll_keeps {P : Reader → Prop}
    (hstep : ∀ place raw r, P r → P (r.feed d place raw).1) (source : Text) (lines : List Text) :
    ∀ (number : Nat) {r : Reader}, P r → P (r.feedAll d source number lines).1 :=
  feedAll_keeps_of_mem source fun raw _ place r => hstep place raw r

theorem defaultName_feedAll (d : Dialect) (source : Text) (number : Nat) (lines : List Text)
    (r : Reader) : (r.feedAll d source number lines).1.store.defaultName = r.store.defaultName :=
  feedAll_keeps (P := fun q => q.store.defaultName = r.store.defaultName)
    (fun place raw q hq => (fed d place raw q).defaultName_eq.trans hq) source lines number rfl

/-- A fault stops the lines at one of them: those before it were taken, and it
is the one at fault. -/
theorem exists_of_feedAll_error {lines : List Text} :
    ∀ {number : Nat} {r : Reader}, r.feedAll d source number lines = (q, .error fault) →
      ∃ front raw back p, lines = front ++ raw :: back ∧
        r.feedAll d source number front = (p, .ok ()) ∧
        p.feed d ⟨source, number + front.length⟩ raw = (q, .error fault) := by
  induction lines with
  | nil =>
      intro number r h
      cases h
  | cons raw rest ih =>
      intro number r h
      rw [feedAll] at h
      split at h
      · next p hp =>
          obtain ⟨front, line, back, p', rfl, hfront, hline⟩ := ih h
          refine ⟨raw :: front, line, back, p', rfl, ?_, ?_⟩
          · rw [feedAll, hp]
            exact hfront
          · rwa [List.length_cons, Nat.add_comm front.length, ← Nat.add_assoc]
      · next p other hp =>
          cases h
          exact ⟨[], raw, rest, r, rfl, rfl, hp⟩

/-- Lines that no fault stops are taken in two parts that no fault stops. -/
theorem exists_of_feedAll_append {front back : List Text} {number : Nat}
    (h : r.feedAll d source number (front ++ back) = (q, .ok ())) :
    ∃ p, r.feedAll d source number front = (p, .ok ()) ∧
      p.feedAll d source (number + front.length) back = (q, .ok ()) := by
  rw [feedAll_append] at h
  split at h
  · next p hp => exact ⟨p, hp, h⟩
  · cases h

/-- The store that is left, and the outcome, when the reading ends here. -/
def conclude (source : Text) : Reader × Except Fault Unit → Store × Except Fault Unit
  | (r, .ok ()) => ((r.finish source).1.store, (r.finish source).2)
  | (r, .error fault) => (r.store, .error fault)

end Reader

namespace Store

/-- Reads lines into a store. -/
def readLines (d : Dialect) (source : Text) (lines : List Text) (s : Store) :
    Store × Except Fault Unit :=
  let (reader, outcome) := Reader.run d source lines { store := s }
  (reader.store, outcome)

theorem read_eq_readLines (d : Dialect) (source text : Text) (s : Store) :
    s.read d source text = s.readLines d source text.lines := rfl

theorem readLines_eq_conclude (d : Dialect) (source : Text) (lines : List Text) (s : Store) :
    s.readLines d source lines =
      Reader.conclude source (Reader.feedAll d source 1 lines { store := s }) := by
  unfold readLines Reader.run Reader.conclude
  rcases Reader.feedAll d source 1 lines { store := s } with ⟨r, outcome⟩
  cases outcome <;> rfl

end Store

end Ini
