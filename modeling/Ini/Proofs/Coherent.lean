import Ini.Config.Basic
import Ini.Proofs.Continued

/-!
# What holds between two lines

A reader stores the first line of a value at once and the whole value later, in
the section and under the key that the open value carries. Nothing in its type
says that there is such an entry then. `Reader.Coherent` says so, of any reader
that has taken some lines: its section is there, an open value belongs to that
section, and its entry still holds the first line while the reader holds the
others, which are the last lines taken, cleaned.

Every line keeps this, one that is at fault or makes no sense included, so that
a caller may go on behind a fault. Two consequences are worth stating. The end
of a value always finds its entry. And the fault of an unknown section, which
storing an entry can raise, is never raised: `Reader.Fatal` lists the faults
that are, each with the setting of the dialect that it takes.
-/

namespace Ini

namespace Reader

variable {d : Dialect} {source raw name : Text} {place : Position} {statement : Statement}
  {fault : Fault} {r q : Reader} {result : Reader × Except Fault Unit} {taken : List Text}

/-- Takes lines one after the other and goes on behind faults. -/
def feedOn (d : Dialect) (lines : List (Position × Text)) (r : Reader) : Reader :=
  lines.foldl (fun r line => (r.feed d line.1 line.2).1) r

/-- What holds of a reader once it has taken these lines. -/
structure Coherent (d : Dialect) (taken : List Text) (r : Reader) : Prop where
  defaultName : r.store.defaultName = d.defaultSection
  current : ∀ name ∈ r.current, (r.store.entries? name).isSome = true
  /-- An open value belongs to that section. The store holds its first line, and the
  others are the last lines taken, cleaned. -/
  pending : ∀ p ∈ r.pending, r.current = some p.name ∧
    ∃ first rows, p.lines = first :: rows.map (Line.clean d) ∧ rows <:+ taken ∧
      r.store.own? p.name p.key = some (some first)

/-- The faults that a line can be at. -/
inductive Fatal (d : Dialect) (place : Position) (raw : Text) : Fault → Prop
  | sectionExists {name : Text} (hstrict : d.strict = true) :
      Fatal d place raw (.sectionExists name (some place))
  | optionExists {name key : Text} (hstrict : d.strict = true) :
      Fatal d place raw (.optionExists name key place)
  | noHeader (hheadless : d.headless = false) : Fatal d place raw (.noHeader place raw)

theorem coherent_start {s : Store} (hs : s.defaultName = d.defaultSection) :
    Coherent d [] { store := s } :=
  ⟨hs, by simp, by simp⟩

/-! ## One line -/

/-- Where no value is open, it does not matter which lines were taken. -/
theorem Coherent.of_pending_eq_none (h : r.Coherent d taken) (hr : r.pending = none)
    (others : List Text) : r.Coherent d others :=
  ⟨h.defaultName, h.current, by simp [hr]⟩

theorem Coherent.own?_flush (h : r.Coherent d taken) {p : Pending} (hp : r.pending = some p) :
    r.flush.store.own? p.name p.key = some (some p.value) := by
  obtain ⟨-, first, rows, -, -, hown⟩ := h.pending p hp
  exact own?_flush_of_pending hp hown

theorem Coherent.flush (h : r.Coherent d taken) (others : List Text) :
    r.flush.Coherent d others := by
  refine ⟨by simpa using h.defaultName, ?_, by simp⟩
  intro name hname
  rw [current_flush] at hname
  have hsome := h.current name hname
  unfold Reader.flush
  split
  · exact hsome
  · rw [Store.entries?_adjust]
    split
    · simpa using hsome
    · exact hsome

theorem Located.coherent (h : Located d r name q) (hr : r.Coherent d taken)
    (hpending : r.pending = none) :
    q.Coherent d taken ∧ (q.store.entries? name).isSome = true := by
  cases h with
  | here hcurrent => exact ⟨hr, hr.current name hcurrent⟩
  | made hcurrent hheadless =>
      have hmade := Store.isSome_entries?_insertSection (s := r.store) unnamedSection
      refine ⟨⟨by simpa using hr.defaultName, ?_, by simp [hpending]⟩, hmade⟩
      intro name hname
      cases hname
      exact hmade

theorem Started.coherent (h : Started d place raw r statement result) (hr : r.Coherent d taken)
    (hpending : r.pending = none) : result.1.Coherent d taken := by
  cases h with
  | nameless => exact ⟨hr.defaultName, by simp [reject], by simp [reject, hpending]⟩
  | defaults =>
      refine ⟨hr.defaultName, ?_, by simp [hpending]⟩
      intro name hname
      cases hname
      simp [Store.entries?, hr.defaultName]
  | @opened name =>
      refine ⟨by simpa using hr.defaultName, ?_, by simp [hpending]⟩
      intro other hother
      cases hother
      exact Store.isSome_entries?_insertSection name
  | repeated | homeless => exact hr
  | @assigned name key value q content hq hcontent =>
      obtain ⟨hcoherent, hsome⟩ := hq.coherent hr hpending
      refine ⟨by simpa using hcoherent.defaultName, ?_, ?_⟩
      · intro other hother
        obtain rfl : name = other := by simpa [hq.current_eq] using hother
        simpa [Store.entries?_put] using hsome
      · intro p hp
        obtain ⟨first, rfl, rfl⟩ := Option.map_eq_some_iff.1 hp
        exact ⟨hq.current_eq, first, [], rfl, List.nil_suffix,
          Store.own?_put_self hsome key (some first)⟩
  | duplicate hq | lost hq => exact (hq.coherent hr hpending).1
  | malformed hq =>
      obtain ⟨hcoherent, -⟩ := hq.coherent hr hpending
      exact ⟨hcoherent.defaultName, hcoherent.current, hcoherent.pending⟩

theorem Fed.coherent (h : Fed d place raw r result) (hr : r.Coherent d taken) :
    result.1.Coherent d (taken ++ [raw]) := by
  -- A line that goes to the open value, blank or not, is added to its rows cleaned.
  have hpush : ∀ {p : Pending}, r.pending = some p →
      Coherent d (taken ++ [raw]) { r with pending := some (p.push (Line.clean d raw)) } := by
    intro p hp
    refine ⟨hr.defaultName, hr.current, fun p' hp' => ?_⟩
    cases hp'
    obtain ⟨hcurrent, first, rows, hlines, hsuffix, hown⟩ := hr.pending p hp
    refine ⟨hcurrent, first, rows ++ [raw], ?_, ?_, hown⟩
    · rw [Pending.push, hlines, List.map_append]
      rfl
    · obtain ⟨front, rfl⟩ := hsuffix
      exact ⟨front, (List.append_assoc ..).symm⟩
  cases h with
  | idle hclean hpending => exact hr.of_pending_eq_none hpending _
  | gap hclean hp =>
      split
      · exact hclean ▸ hpush hp
      · exact ⟨hr.defaultName, hr.current, by simp⟩
  | row hclean hraw hp => exact hpush hp
  | started hclean hraw hstarted =>
      exact hstarted.coherent (hr.flush _) (pending_flush r)

/-- The section that entries go to is there, so none of them is lost. -/
theorem Started.fatal (h : Started d place raw r statement (q, .error fault))
    (hr : r.Coherent d taken) (hpending : r.pending = none) : Fatal d place raw fault := by
  cases h with
  | repeated hhas hstrict => exact .sectionExists hstrict
  | homeless hs hcurrent hheadless => exact .noHeader hheadless
  | duplicate hq hcontent hhas hstrict => exact .optionExists hstrict
  | lost hq hcontent =>
      have hsome := (hq.coherent hr hpending).2
      rw [hcontent] at hsome
      cases hsome

theorem Fed.fatal (h : Fed d place raw r (q, .error fault)) (hr : r.Coherent d taken) :
    Fatal d place raw fault := by
  cases h with
  | started hclean hraw hstarted => exact hstarted.fatal (hr.flush taken) (pending_flush r)

/-! ## Many lines -/

theorem coherent_feedOn (lines : List (Position × Text)) :
    ∀ {taken : List Text} {r : Reader}, r.Coherent d taken →
      (r.feedOn d lines).Coherent d (taken ++ lines.map Prod.snd) := by
  induction lines with
  | nil =>
      intro taken r hr
      simpa [feedOn] using hr
  | cons line rest ih =>
      intro taken r hr
      have hnext := ih ((fed d line.1 line.2 r).coherent hr)
      rwa [List.append_assoc] at hnext

end Reader

namespace Store

variable {d : Dialect} {source : Text} {lines : List Text} {fault : Fault} {s : Store}

/-- A reading that fails meets a fault at one of its lines or has malformed lines
to report. -/
theorem fatal_of_readLines_error (hs : s.defaultName = d.defaultSection)
    (h : (s.readLines d source lines).2 = .error fault) :
    (∃ number raw, lines[number]? = some raw ∧
        Reader.Fatal d ⟨source, 1 + number⟩ raw fault) ∨
      ∃ malformed, malformed ≠ [] ∧ fault = .malformedLines source malformed := by
  rw [readLines_eq_conclude] at h
  generalize hall : Reader.feedAll d source 1 lines { store := s } = result at h
  obtain ⟨q, outcome⟩ := result
  cases outcome with
  | error other =>
      cases h
      obtain ⟨front, raw, back, p, rfl, hfront, hraw⟩ := Reader.exists_of_feedAll_error hall
      obtain ⟨taken, hp⟩ : ∃ taken, p.Coherent d taken := by
        have hkept := Reader.feedAll_keeps (P := fun q => ∃ taken, q.Coherent d taken)
          (fun place raw q ⟨taken, hq⟩ => ⟨_, (Reader.fed d place raw q).coherent hq⟩)
          source front 1 ⟨[], Reader.coherent_start hs⟩
        rwa [hfront] at hkept
      have hfed : Reader.Fed d ⟨source, 1 + front.length⟩ raw p (q, .error fault) :=
        hraw ▸ Reader.fed ..
      exact .inl ⟨front.length, raw, by simp, hfed.fatal hp⟩
  | ok =>
      rw [Reader.conclude, Reader.finish] at h
      split at h
      · cases h
      · next hmalformed =>
          cases h
          exact .inr ⟨q.malformed, by simpa using hmalformed, rfl⟩

/-- Whatever lines a reader has taken, at fault or not, it is coherent. So no line
is lost for want of its section, and a value that ends finds its entry. A
configuration fails to read a text only at a line that the dialect forbids or
with malformed lines. -/
theorem coherent_of_lines (hs : s.defaultName = d.defaultSection) :
    (∀ lines : List (Position × Text),
      (Reader.feedOn d lines { store := s }).Coherent d (lines.map Prod.snd) ∧
      (∀ place raw fault,
        ((Reader.feedOn d lines { store := s }).feed d place raw).2 = .error fault →
          Reader.Fatal d place raw fault) ∧
      ∀ p ∈ (Reader.feedOn d lines { store := s }).pending,
        (Reader.feedOn d lines { store := s }).flush.store.own? p.name p.key =
          some (some p.value)) ∧
    ∀ source text fault, (Config.read source text ⟨d, s⟩).2 = .error fault →
      (∃ number raw, text.lines[number]? = some raw ∧
          Reader.Fatal d ⟨source, 1 + number⟩ raw fault) ∨
        ∃ malformed, malformed ≠ [] ∧ fault = .malformedLines source malformed := by
  refine ⟨fun lines => ?_, fun source text fault h => fatal_of_readLines_error hs h⟩
  have hcoherent := Reader.coherent_feedOn lines (Reader.coherent_start hs)
  refine ⟨hcoherent, fun place raw fault h => ?_, fun p hp => hcoherent.own?_flush hp⟩
  have hfed := Reader.fed d place raw (Reader.feedOn d lines { store := s })
  generalize Reader.feed d place raw (Reader.feedOn d lines { store := s }) = result at h hfed
  obtain ⟨q, outcome⟩ := result
  cases h
  exact hfed.fatal hcoherent

/-- A section met twice, with an open value before it and another behind it. -/
def revisited : List Text :=
  ["[a]", "k = 1", "\t2", "[a]", "j = 3", "# 4", "\t5"].map String.toList

/-- The reader of these lines, once it has taken all of them. -/
def revisiting : Reader :=
  Reader.feedOn .standard (revisited.map fun line => (⟨[], 0⟩, line))
    { store := ⟨defaultSectionName, [], []⟩ }

theorem coherent_of_lines_revisited :
    defaultSectionName = Dialect.standard.defaultSection ∧
      revisiting.pending = some ⟨"a".toList, "j".toList, ["3".toList, [], "5".toList]⟩ ∧
      revisiting.flush.store.own? "a".toList "j".toList = some (some "3\n\n5".toList) ∧
      ∃ number raw, revisited[number]? = some raw ∧
        Reader.Fatal .standard ⟨[], 1 + number⟩ raw
          (.sectionExists "a".toList (some ⟨[], 4⟩)) := by
  have hs : defaultSectionName = Dialect.standard.defaultSection := rfl
  have hpending : revisiting.pending =
      some ⟨"a".toList, "j".toList, ["3".toList, [], "5".toList]⟩ := rfl
  have hfault : (Config.read [] (Text.joinLines revisited)
      ⟨.standard, ⟨defaultSectionName, [], []⟩⟩).2 =
        .error (.sectionExists "a".toList (some ⟨[], 4⟩)) := rfl
  obtain ⟨hlines, hread⟩ := coherent_of_lines (s := ⟨defaultSectionName, [], []⟩) hs
  refine ⟨hs, hpending, (hlines _).2.2 _ hpending, ?_⟩
  exact (hread _ _ _ hfault).resolve_right (by simp)

end Store

end Ini
