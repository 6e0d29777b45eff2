import Ini.Proofs.Step
import Mathlib.Data.List.TakeWhile

/-!
# Reading item by item

The reader stores the first line of a value at once and mends the entry when
the value ends. What it achieves can be said without that. Cut the lines into
items first, each a statement with all the lines of its value, and then act on
the items one after the other. The cutting consults the dialect and never the
store; the acting keeps no value open between two items, stores every value
whole, and takes it for granted that the section it goes on with is there.

This file defines that second reader for the dialects that keep blank lines in
values, and shows that the two agree on every text: the store they leave, the
outcome, and the place and the text of every fault. The weight is in
`conclude_feedAll`, an induction on the cutting. What carries it is
`conclude_flush`: a line that does not continue a value finds the reader in the
state it would be in had the value been stored whole, and so does the end of
the text.
-/

namespace Ini

/-- A statement with all the lines of its value. -/
structure Item where
  /-- The number of its first line. -/
  number : Nat
  /-- Its first line as it stands in the text. -/
  raw : Text
  statement : Statement
  deriving DecidableEq, Repr

namespace Item

/-- A blank line or an indented one is taken into the value before it. -/
def continues (d : Dialect) (raw : Text) : Bool :=
  (Line.clean d raw).isEmpty || raw.indented

/-- The value that begins with `first` and takes in the lines of `run`. -/
def whole (d : Dialect) (first : Text) (run : List Text) : Text :=
  (Text.joinLines (first :: run.map (Line.clean d))).trimEnd

/-- Cuts lines into items, numbering them from `number` on. A value takes in as
many lines as it can; any other statement stands on a line of its own. -/
def cut (d : Dialect) (number : Nat) : List Text → List Item
  | [] => []
  | raw :: rest =>
    if (Line.clean d raw).isEmpty then cut d (number + 1) rest
    else
      match Statement.ofCleaned d (Line.clean d raw) with
      | .entry key (some first) =>
        let run := rest.takeWhile (continues d)
        ⟨number, raw, .entry key (some (whole d first run))⟩ ::
          cut d (number + 1 + run.length) (rest.dropWhile (continues d))
      | statement => ⟨number, raw, statement⟩ :: cut d (number + 1) rest
termination_by lines => lines.length
decreasing_by
  · simp
  · have h := (List.dropWhile_suffix (l := rest) (continues d)).length_le
    simp only [List.length_cons]
    omega
  · simp

end Item

/-- Where the acting on items stands. -/
structure Progress where
  store : Store
  /-- The section that entries go to. -/
  current : Option Text := none
  /-- The malformed items with the numbers of their lines. -/
  malformed : List (Nat × Text) := []
  deriving DecidableEq, Repr

namespace Progress

/-- Notes an item that makes no sense. -/
def note (item : Item) (p : Progress) : Progress :=
  { p with malformed := p.malformed ++ [(item.number, item.raw)] }

/-- Goes on with the section of this name. -/
def begin (d : Dialect) (source : Text) (item : Item) (name : Text) (p : Progress) :
    Progress × Except Fault Unit :=
  if name = [] then (note item { p with current := none }, .ok ())
  else if name = d.defaultSection then ({ p with current := some name }, .ok ())
  else if p.store.hasSection name = true ∧ d.strict = true then
    (p, .error (.sectionExists name (some ⟨source, item.number⟩)))
  else ({ p with store := p.store.insertSection name, current := some name }, .ok ())

/-- Whether a section is there and owns the key. -/
def owns (name key : Text) (p : Progress) : Prop :=
  ∃ entries, p.store.entries? name = some entries ∧ key ∈ entries.keys

instance (name key : Text) (p : Progress) : Decidable (p.owns name key) :=
  match h : p.store.entries? name with
  | none => .isFalse (by simp [owns, h])
  | some entries => decidable_of_iff (key ∈ entries.keys) (by simp [owns, h])

/-- Stores the whole of an entry, or notes an item that makes no sense. -/
def record (d : Dialect) (source : Text) (item : Item) (name : Text) (p : Progress) :
    Progress × Except Fault Unit :=
  match item.statement with
  | .entry key value =>
    if p.owns name key ∧ d.strict = true then
      (p, .error (.optionExists name key ⟨source, item.number⟩))
    else ({ p with store := p.store.put name key value }, .ok ())
  | _ => (p.note item, .ok ())

/-- The section that entries go to, made where there is none and the dialect
allows it. -/
def home (d : Dialect) (p : Progress) : Option (Text × Progress) :=
  match p.current with
  | some name => some (name, p)
  | none =>
    if d.headless = true then
      some (unnamedSection,
        { p with store := p.store.insertSection unnamedSection, current := some unnamedSection })
    else none

/-- Acts on an item. -/
def act (d : Dialect) (source : Text) (item : Item) (p : Progress) :
    Progress × Except Fault Unit :=
  match item.statement with
  | .header name => p.begin d source item name
  | _ =>
    match p.home d with
    | none => (p, .error (.noHeader ⟨source, item.number⟩ item.raw))
    | some (name, p) => p.record d source item name

/-- Acts on items up to the first fault. -/
def actAll (d : Dialect) (source : Text) (items : List Item) (p : Progress) :
    Progress × Except Fault Unit :=
  match items with
  | [] => (p, .ok ())
  | item :: rest =>
    match p.act d source item with
    | (p, .ok ()) => actAll d source rest p
    | (p, .error fault) => (p, .error fault)

/-- The store that is left, and the outcome: a fault, else the malformed items. -/
def conclude (source : Text) : Progress × Except Fault Unit → Store × Except Fault Unit
  | (p, .ok ()) =>
    (p.store, if p.malformed = [] then .ok () else .error (.malformedLines source p.malformed))
  | (p, .error fault) => (p.store, .error fault)

end Progress

/-- Reads a text item by item. -/
def Store.readItems (d : Dialect) (source text : Text) (s : Store) : Store × Except Fault Unit :=
  Progress.conclude source
    (Progress.actAll d source (Item.cut d 1 text.lines) { store := s })

/-! ## What the acting keeps -/

namespace Progress

variable {d : Dialect} {source : Text} {item : Item} {p q : Progress} {name : Text}

/-- The defaults answer to the dialect's name for them, and the section that
entries go to is there. -/
structure Settled (d : Dialect) (p : Progress) : Prop where
  defaultName : p.store.defaultName = d.defaultSection
  current : ∀ name, p.current = some name → (p.store.entries? name).isSome = true

theorem settled_start {s : Store} (hs : s.defaultName = d.defaultSection) :
    Settled d { store := s } := ⟨hs, by simp⟩

theorem Settled.note (h : p.Settled d) (item : Item) : (p.note item).Settled d :=
  ⟨h.defaultName, h.current⟩

theorem Settled.insert (h : p.Settled d) (name : Text) :
    Settled d { p with store := p.store.insertSection name, current := some name } := by
  refine ⟨by simpa using h.defaultName, fun other hother => ?_⟩
  cases hother
  exact Store.isSome_entries?_insertSection name

theorem Settled.put (h : p.Settled d) (name key : Text) (value : Option Text) :
    Settled d { p with store := p.store.put name key value } := by
  refine ⟨by simpa using h.defaultName, fun other hother => ?_⟩
  have hsome := h.current other hother
  rw [Store.entries?_put]
  split
  · simpa using hsome
  · exact hsome

theorem Settled.begin (h : p.Settled d) (hq : p.begin d source item name = (q, .ok ())) :
    q.Settled d := by
  unfold Progress.begin at hq
  split at hq
  · cases hq
    exact ⟨h.defaultName, by simp [Progress.note]⟩
  · split at hq
    · next hdefault =>
        cases hq
        refine ⟨h.defaultName, fun other hother => ?_⟩
        cases hother
        simp [Store.entries?, h.defaultName, hdefault]
    · split at hq
      · cases hq
      · cases hq
        exact h.insert name

theorem Settled.home (h : p.Settled d) (hq : p.home d = some (name, q)) :
    q.Settled d ∧ q.current = some name := by
  unfold Progress.home at hq
  split at hq
  · next hcurrent =>
      cases hq
      exact ⟨h, hcurrent⟩
  · split at hq
    · cases hq
      exact ⟨h.insert unnamedSection, rfl⟩
    · cases hq

theorem Settled.record (h : p.Settled d) (hq : p.record d source item name = (q, .ok ())) :
    q.Settled d := by
  unfold Progress.record at hq
  split at hq
  · split at hq
    · cases hq
    · cases hq
      exact h.put ..
  · cases hq
    exact h.note item

theorem Settled.act (h : p.Settled d) (hq : p.act d source item = (q, .ok ())) : q.Settled d := by
  unfold Progress.act at hq
  split at hq
  · exact h.begin hq
  · split at hq
    · cases hq
    · next hhome => exact (h.home hhome).1.record hq

end Progress

/-! ## One item -/

namespace Progress

variable {d : Dialect} {source : Text} {item : Item} {p : Progress}

/-- The reader that stands where the acting stands, with no value open. -/
def reader (p : Progress) : Reader := ⟨p.store, p.current, none, p.malformed⟩

theorem locate_reader (p : Progress) :
    p.reader.locate d = (p.home d).map (Prod.map id reader) := by
  unfold Reader.locate home
  cases hcurrent : p.current with
  | some name => simp [reader, hcurrent]
  | none =>
      by_cases hheadless : d.headless = true
      · simp [reader, hcurrent, hheadless]
      · simp [reader, hcurrent, hheadless]

theorem enter_reader (p : Progress) (name : Text) :
    p.reader.enter d ⟨source, item.number⟩ item.raw name =
      Prod.map reader id (p.begin d source item name) := by
  unfold Reader.enter begin
  by_cases hempty : name = []
  · simp [hempty, reader, Reader.reject, note]
  · by_cases hdefault : name = d.defaultSection
    · rw [if_neg (by simpa using hempty), if_pos hdefault, if_neg hempty, if_pos hdefault]
      rfl
    · rw [if_neg (by simpa using hempty), if_neg hdefault, if_neg hempty, if_neg hdefault]
      by_cases hdup : p.store.hasSection name = true ∧ d.strict = true
      · rw [if_pos (by simpa [reader] using hdup), if_pos hdup]
        rfl
      · rw [if_neg (by simpa [reader] using hdup), if_neg hdup]
        rfl

/-- The reader stores `value` at once and keeps it open if there is one. -/
theorem assign_reader {name : Text} (hname : (p.store.entries? name).isSome = true)
    (number : Nat) (key : Text) (value : Option Text) :
    p.reader.assign d ⟨source, number⟩ name key value =
      if p.owns name key ∧ d.strict = true then
        (p.reader, .error (.optionExists name key ⟨source, number⟩))
      else
        ({ p.reader with
            store := p.store.put name key value
            pending := value.map fun first => ⟨name, key, [first]⟩ }, .ok ()) := by
  obtain ⟨entries, hentries⟩ := Option.isSome_iff_exists.1 hname
  have howns : p.owns name key ↔ entries.contains key = true := by
    simp [owns, hentries, Table.contains_iff_mem_keys]
  unfold Reader.assign
  simp only [reader, hentries, howns, Bool.and_eq_true]

/-- A statement without a value of its own leaves no value open. -/
theorem start_reader (source : Text) (h : p.Settled d) (item : Item)
    (hopen : ∀ key first, item.statement ≠ .entry key (some first)) :
    p.reader.start d ⟨source, item.number⟩ item.raw item.statement =
      Prod.map reader id (p.act d source item) := by
  unfold Reader.start act
  cases hs : item.statement with
  | header name => exact enter_reader p name
  | entry key value =>
      rw [locate_reader]
      cases hhome : p.home d with
      | none => rfl
      | some found =>
          obtain ⟨name, q⟩ := found
          obtain ⟨hq, hcurrent⟩ := h.home hhome
          have hvalue : value = none := by
            cases value with
            | none => rfl
            | some first => exact absurd hs (hopen key first)
          simp only [Option.map_some, Prod.map_apply, id_eq, record, hs, hvalue]
          rw [assign_reader (hq.current name hcurrent)]
          split <;> rfl
  | malformed =>
      rw [locate_reader]
      cases hhome : p.home d with
      | none => rfl
      | some found =>
          obtain ⟨name, q⟩ := found
          simp only [Option.map_some, Prod.map_apply, id_eq, record, hs]
          rfl

end Progress

/-! ## The lines of a value -/

namespace Reader

variable {d : Dialect} {source : Text} {place : Position} {raw : Text} {r : Reader}

theorem read_eq_conclude (d : Dialect) (source text : Text) (s : Store) :
    s.read d source text = conclude source (feedAll d source 1 text.lines { store := s }) :=
  (s.read_eq_readLines d source text).trans (s.readLines_eq_conclude d source text.lines)

theorem feed_of_continues {open_ : Pending} (hr : r.pending = some open_)
    (hraw : Item.continues d raw = true)
    (hd : Line.clean d raw = [] → d.blankLinesInValues = true) :
    r.feed d place raw = ({ r with pending := some (open_.push (Line.clean d raw)) }, .ok ()) := by
  unfold feed
  by_cases hblank : Line.clean d raw = []
  · simp [hr, hblank, hd hblank]
  · have hindented : raw.indented = true := by simpa [Item.continues, hblank] using hraw
    simp [hr, hblank, hindented]

/-- Lines that continue a value only ever lengthen it, if the dialect lets the
blank ones among them do so. -/
theorem feedAll_run {run : List Text}
    (hd : ∀ raw ∈ run, Line.clean d raw = [] → d.blankLinesInValues = true) :
    ∀ {number : Nat} {r : Reader} {open_ : Pending}, r.pending = some open_ →
      (∀ raw ∈ run, Item.continues d raw = true) →
      r.feedAll d source number run =
        ({ r with
            pending := some { open_ with lines := open_.lines ++ run.map (Line.clean d) } },
          .ok ()) := by
  induction run with
  | nil =>
      intro number r open_ hr _
      simp [feedAll, ← hr]
  | cons raw rest ih =>
      intro number r open_ hr hrun
      rw [feedAll, feed_of_continues hr (hrun raw (by simp)) (hd raw (by simp))]
      simp only []
      rw [ih (fun line hline => hd line (by simp [hline])) rfl
        fun line hline => hrun line (by simp [hline])]
      simp [Pending.push]

theorem feed_flush (hraw : Item.continues d raw = false) :
    r.flush.feed d place raw = r.feed d place raw := by
  obtain ⟨hclean, hindented⟩ : Line.clean d raw ≠ [] ∧ raw.indented = false := by
    simpa [Item.continues] using hraw
  cases hr : r.pending with
  | none => simp [flush, hr]
  | some open_ => simp [feed, flush, hr, hclean, hindented]

/-- A value ends where a line does not continue it, and at the end of the text. -/
theorem conclude_flush {number : Nat} {lines : List Text}
    (hlines : ∀ raw ∈ lines.head?, Item.continues d raw = false) :
    conclude source (r.flush.feedAll d source number lines) =
      conclude source (r.feedAll d source number lines) := by
  cases lines with
  | nil =>
      cases hr : r.pending with
      | none => simp [flush, hr]
      | some open_ => simp [feedAll, conclude, finish, flush, hr]
  | cons raw rest => rw [feedAll, feedAll, feed_flush (hlines raw rfl)]

/-- An open value takes in the lines that continue it, and then it ends. -/
theorem conclude_run (hd : d.blankLinesInValues = true) {number : Nat} {lines : List Text}
    {open_ : Pending} (hr : r.pending = some open_) :
    conclude source (r.feedAll d source number lines) =
      conclude source
        ((flush
          { r with
            pending := some { open_ with
              lines := open_.lines ++ (lines.takeWhile (Item.continues d)).map (Line.clean d) }
          }).feedAll d source (number + (lines.takeWhile (Item.continues d)).length)
            (lines.dropWhile (Item.continues d))) := by
  have hnext : ∀ raw ∈ (lines.dropWhile (Item.continues d)).head?,
      Item.continues d raw = false := by
    intro raw hraw
    have h := List.head?_dropWhile_not (Item.continues d) lines
    simpa [Option.mem_def.1 hraw] using h
  have hsplit : r.feedAll d source number lines =
      r.feedAll d source number
        (lines.takeWhile (Item.continues d) ++ lines.dropWhile (Item.continues d)) := by
    rw [List.takeWhile_append_dropWhile]
  rw [hsplit, feedAll_append,
    feedAll_run (fun _ _ _ => hd) hr fun raw hraw => List.mem_takeWhile_imp hraw,
    conclude_flush hnext]

end Reader

/-! ## The two readers agree -/

namespace Progress

variable {d : Dialect} {source : Text}

theorem conclude_nil (p : Progress) :
    Reader.conclude source (p.reader, .ok ()) = conclude source (p, .ok ()) := by
  simp [Reader.conclude, Reader.finish, Reader.flush, reader, conclude]

/-- A reader at the end of a value is where it would be had the value been
stored whole. -/
theorem flush_run (q : Progress) (name key first : Text) (run : List Text) :
    Reader.flush
        { q.reader with
          store := q.store.put name key (some first)
          pending := some ⟨name, key, [first] ++ run.map (Line.clean d)⟩ } =
      reader { q with store := q.store.put name key (some (Item.whole d first run)) } := by
  simp [Reader.flush, reader, Store.adjust_put, Pending.value, Item.whole]

theorem feed_start (p : Progress) {place : Position} {raw : Text}
    (hraw : ¬(Line.clean d raw).isEmpty = true) :
    p.reader.feed d place raw =
      p.reader.start d place raw (Statement.ofCleaned d (Line.clean d raw)) := by
  simp [Reader.feed, reader, hraw]

theorem conclude_feedAll (source : Text) (hd : d.blankLinesInValues = true) (number : Nat)
    (lines : List Text) :
    ∀ p : Progress, p.Settled d →
      Reader.conclude source (p.reader.feedAll d source number lines) =
        conclude source (p.actAll d source (Item.cut d number lines)) := by
  fun_induction Item.cut d number lines with
  | case1 number =>
      intro p _
      exact conclude_nil p
  | case2 number raw rest hblank ih =>
      intro p hp
      have hfeed : p.reader.feed d ⟨source, number⟩ raw = (p.reader, .ok ()) := by
        simp [Reader.feed, reader, hblank]
      rw [Reader.feedAll, hfeed]
      exact ih p hp
  | case3 number raw rest hblank key first hs run ih =>
      intro p hp
      rw [Reader.feedAll, feed_start p hblank, hs, Reader.start, locate_reader, actAll, act]
      simp only []
      cases hhome : p.home d with
      | none => rfl
      | some found =>
          obtain ⟨name, q⟩ := found
          obtain ⟨hq, hcurrent⟩ := hp.home hhome
          simp only [Option.map_some, Prod.map_apply, id_eq, record]
          rw [assign_reader (hq.current name hcurrent)]
          by_cases hdup : q.owns name key ∧ d.strict = true
          · rw [if_pos hdup, if_pos hdup]
            rfl
          · rw [if_neg hdup, if_neg hdup]
            simp only []
            rw [Reader.conclude_run hd rfl, flush_run]
            exact ih _ (hq.put ..)
  | case4 number raw rest hblank hopen ih =>
      intro p hp
      have hstart := start_reader source hp
        ⟨number, raw, Statement.ofCleaned d (Line.clean d raw)⟩ hopen
      rw [Reader.feedAll, feed_start p hblank, actAll, hstart]
      rcases hact : p.act d source _ with ⟨q, outcome⟩
      cases outcome with
      | ok _ => exact ih q (hp.act hact)
      | error fault => rfl

end Progress

/-- Where blank lines are kept in values, reading line by line is reading item
by item, from every store and on every text. -/
theorem Store.read_eq_readItems {d : Dialect} (hd : d.blankLinesInValues = true) {s : Store}
    (hs : s.defaultName = d.defaultSection) (source text : Text) :
    s.read d source text = s.readItems d source text := by
  rw [Reader.read_eq_conclude]
  exact Progress.conclude_feedAll source hd 1 text.lines _ (Progress.settled_start hs)

/-- Values that end at an entry, at a malformed line, at a header and at a fault,
over blank lines and comments. -/
theorem Store.read_eq_readItems_strict :
    Dialect.standard.blankLinesInValues = true ∧
      Store.read .standard [] "[a]\nk = 1\n\t2\n\n;\nj:\n 3\n?\n x = 4\n[b]\ni = 5\n\n[a]".toList
          ⟨defaultSectionName, [], []⟩ =
        Store.readItems .standard [] "[a]\nk = 1\n\t2\n\n;\nj:\n 3\n?\n x = 4\n[b]\ni = 5\n\n[a]".toList
          ⟨defaultSectionName, [], []⟩ :=
  ⟨rfl, read_eq_readItems rfl rfl _ _⟩

end Ini
