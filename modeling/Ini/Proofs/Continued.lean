import Ini.Proofs.Items

/-!
# What becomes of a continued value

Where a blank line ends a value, everything else ends it too, and everything
else stores it: a statement of any kind, a malformed line, a fault, the end of
the text. The blank line does not. Lines that continued the value up to there
are lost, and its first line, which was stored at once, is all that is left of
it.

`own?_readLines_of_run` says what a value is at the end of a reading, whatever
ended it. Two things go into it. A run of lines that continue a value only
lengthens it, and an entry that no line assigns and no open value belongs to
stays as it is (`own?_feedAll`).
-/

namespace Ini

theorem Statement.ofCleaned_nil (d : Dialect) : ofCleaned d [] = .malformed := by
  simp [ofCleaned, headerName?, Text.cut, ofKey, Text.trim, Text.trimStart, Text.trimEnd]

/-! ## Entries of a store -/

namespace Store

/-- What a section itself says about a key. -/
def own? (s : Store) (name key : Text) : Option (Option Text) :=
  (s.entries? name).bind (·.find? key)

theorem own?_insertSection (s : Store) (made name key : Text) :
    (s.insertSection made).own? name key = s.own? name key := by
  rw [own?, own?, entries?_insertSection]
  split
  · next h => simp [h.2, Table.find?]
  · rfl

theorem own?_put_self {s : Store} {name : Text} (h : (s.entries? name).isSome = true) (key : Text)
    (value : Option Text) : (s.put name key value).own? name key = some value := by
  obtain ⟨content, hcontent⟩ := Option.isSome_iff_exists.1 h
  simp [own?, entries?_put, hcontent, Table.find?_put]

theorem own?_put_of_ne {name key : Text} {pair : Text × Text} (h : pair ≠ (name, key)) (s : Store)
    (value : Option Text) : (s.put pair.1 pair.2 value).own? name key = s.own? name key := by
  rw [own?, own?, entries?_put]
  split
  · next hname =>
      have hkey : pair.2 ≠ key := fun hkey => h (Prod.ext hname hkey)
      cases s.entries? name <;> simp [Table.find?_put, hkey]
  · rfl

theorem own?_adjust (s : Store) (pair : Text × Text) (value : Option Text) (name key : Text) :
    (s.adjust pair.1 (·.adjust pair.2 fun _ => value)).own? name key =
      if pair = (name, key) then (s.own? name key).map fun _ => value else s.own? name key := by
  obtain ⟨name', key'⟩ := pair
  rw [own?, own?, entries?_adjust]
  by_cases hname : name' = name
  · by_cases hkey : key' = key
    · cases s.entries? name <;> simp [Table.find?_adjust, hname, hkey]
    · cases s.entries? name <;> simp [Table.find?_adjust, hname, hkey]
  · simp [hname]

end Store

namespace Reader

variable {d : Dialect} {source raw name key : Text} {place : Position} {statement : Statement}
  {r q : Reader} {result : Reader × Except Fault Unit}

/-- The open value is that of this entry. -/
def Pends (r : Reader) (name key : Text) : Prop := ∃ p ∈ r.pending, (p.name, p.key) = (name, key)

/-- The entry that a line stores, if it stores one: its section and its key. -/
def assigned? (d : Dialect) (place : Position) (raw : Text) (r : Reader) : Option (Text × Text) :=
  match Statement.ofCleaned d (Line.clean d raw), r.feed d place raw with
  | .entry key _, (q, .ok ()) =>
    if r.pending.isSome && raw.indented then none else q.current.map fun name => (name, key)
  | _, _ => none

/-- The entries that lines store up to the first fault, in their order. -/
def assigned (d : Dialect) (source : Text) (number : Nat) (lines : List Text) (r : Reader) :
    List (Text × Text) :=
  match lines with
  | [] => []
  | raw :: rest =>
    (r.assigned? d ⟨source, number⟩ raw).toList ++
      match r.feed d ⟨source, number⟩ raw with
      | (r, .ok ()) => assigned d source (number + 1) rest r
      | (_, .error _) => []

theorem Located.current_eq (h : Located d r name q) : q.current = some name := by
  cases h with
  | here hcurrent => exact hcurrent
  | made => rfl

theorem Located.own?_eq (h : Located d r name q) (other key : Text) :
    q.store.own? other key = r.store.own? other key := by
  cases h with
  | here => rfl
  | made => exact Store.own?_insertSection ..

theorem not_pends_of_pending (h : r.pending = none) : ¬r.Pends name key := by
  simp [Pends, h]

theorem own?_flush (h : ¬r.Pends name key) :
    r.flush.store.own? name key = r.store.own? name key := by
  unfold flush
  split
  · rfl
  · next p hp =>
      have hne : (p.name, p.key) ≠ (name, key) := fun e => h ⟨p, hp, e⟩
      exact (Store.own?_adjust r.store (p.name, p.key) _ name key).trans (if_neg hne)

/-- The end of an open value stores it, if the entry is there. -/
theorem own?_flush_of_pending {p : Pending} (hr : r.pending = some p) {old : Option Text}
    (hown : r.store.own? p.name p.key = some old) :
    r.flush.store.own? p.name p.key = some (some p.value) := by
  have h := Store.own?_adjust r.store (p.name, p.key) (some p.value) p.name p.key
  rw [if_pos rfl, hown, Option.map_some] at h
  simpa only [flush, hr] using h

/-! ## An entry that is left alone -/

theorem Started.own?_eq (h : Started d place raw r statement result) (hr : r.pending = none)
    (hne : ∀ value, statement = .entry key value → result.2 = .ok () →
      result.1.current ≠ some name) :
    result.1.store.own? name key = r.store.own? name key ∧ ¬result.1.Pends name key := by
  cases h with
  | nameless | defaults | repeated | homeless => exact ⟨rfl, not_pends_of_pending hr⟩
  | opened => exact ⟨Store.own?_insertSection .., not_pends_of_pending hr⟩
  | @assigned name' key' value q content hq hcontent hnew =>
      have hpair : (name', key') ≠ (name, key) := by
        intro e
        cases e
        exact hne value rfl rfl hq.current_eq
      refine ⟨(Store.own?_put_of_ne hpair q.store value).trans (hq.own?_eq name key), ?_⟩
      rintro ⟨p, hp, e⟩
      obtain ⟨first, -, rfl⟩ := Option.map_eq_some_iff.1 hp
      exact hpair e
  | duplicate hq | lost hq | malformed hq =>
      exact ⟨hq.own?_eq name key, not_pends_of_pending (hq.pending_eq.trans hr)⟩

theorem own?_feed (h : ¬r.Pends name key) (hline : r.assigned? d place raw ≠ some (name, key)) :
    (r.feed d place raw).1.store.own? name key = r.store.own? name key ∧
      ¬(r.feed d place raw).1.Pends name key := by
  have hfed := fed d place raw r
  unfold assigned? at hline
  generalize r.feed d place raw = result at hfed hline
  cases hfed with
  | idle => exact ⟨rfl, h⟩
  | gap hclean hr =>
      refine ⟨rfl, ?_⟩
      rintro ⟨p, hp, e⟩
      split at hp
      · cases hp
        exact h ⟨_, hr, e⟩
      · cases hp
  | row hclean hraw hr =>
      refine ⟨rfl, ?_⟩
      rintro ⟨p, hp, e⟩
      cases hp
      exact h ⟨_, hr, e⟩
  | started hclean hraw hstarted =>
      have hpass : (r.pending.isSome && raw.indented) = false := by
        cases hr : r.pending with
        | none => rfl
        | some p => simp [hraw p hr]
      rw [← own?_flush h]
      refine hstarted.own?_eq (pending_flush r) fun value hs hok hcurrent => ?_
      obtain ⟨q, outcome⟩ := result
      obtain rfl : outcome = .ok () := hok
      have hq : q.current = some name := hcurrent
      simp only [hs, hpass, Bool.false_eq_true, if_false, hq] at hline
      exact hline rfl

theorem own?_feedAll {lines : List Text} :
    ∀ {number : Nat} {r : Reader}, ¬r.Pends name key →
      (name, key) ∉ r.assigned d source number lines →
      (r.feedAll d source number lines).1.store.own? name key = r.store.own? name key ∧
        ¬(r.feedAll d source number lines).1.Pends name key := by
  induction lines with
  | nil =>
      intro number r h _
      exact ⟨rfl, h⟩
  | cons raw rest ih =>
      intro number r h hlines
      rw [assigned, List.mem_append, not_or] at hlines
      obtain ⟨hline, hrest⟩ := hlines
      obtain ⟨hown, hopen⟩ := own?_feed h (by simpa using hline)
      rw [feedAll]
      split
      · next q hq =>
          rw [hq] at hrest hown hopen
          obtain ⟨hown', hopen'⟩ := ih hopen hrest
          exact ⟨hown'.trans hown, hopen'⟩
      · next q fault hq =>
          rw [hq] at hown hopen
          exact ⟨hown, hopen⟩

theorem own?_conclude (h : ¬result.1.Pends name key) :
    (conclude source result).1.own? name key = result.1.store.own? name key := by
  obtain ⟨q, outcome⟩ := result
  cases outcome with
  | ok => exact own?_flush h
  | error => rfl

/-! ## An entry whose value is continued -/

theorem assigned_append {front : List Text} (back : List Text) :
    ∀ {number : Nat} {r : Reader}, r.feedAll d source number front = (q, .ok ()) →
      r.assigned d source number (front ++ back) =
        r.assigned d source number front ++ q.assigned d source (number + front.length) back := by
  induction front with
  | nil =>
      intro number r h
      cases h
      rfl
  | cons raw rest ih =>
      intro number r h
      rw [feedAll] at h
      split at h
      · next p hp =>
          simp only [List.cons_append, assigned, hp, List.length_cons]
          rw [ih h, List.append_assoc, Nat.add_assoc, Nat.add_comm 1]
      · cases h

theorem assigned_flush (hraw : Item.continues d raw = false) (number : Nat) (rest : List Text) :
    r.flush.assigned d source number (raw :: rest) = r.assigned d source number (raw :: rest) := by
  have hindented : raw.indented = false := by
    rw [Item.continues, Bool.or_eq_false_iff] at hraw
    exact hraw.2
  simp only [assigned, assigned?, feed_flush hraw, hindented, Bool.and_false]

theorem feed_of_assigned? {first : Text} (h : r.assigned? d place raw = some (name, key))
    (hs : Statement.ofCleaned d (Line.clean d raw) = .entry key (some first)) :
    ∃ q, r.feed d place raw = (q, .ok ()) ∧ q.pending = some ⟨name, key, [first]⟩ ∧
      q.store.own? name key = some (some first) := by
  have hne : Line.clean d raw ≠ [] := by
    intro hnil
    rw [hnil, Statement.ofCleaned_nil] at hs
    cases hs
  have hfed := fed d place raw r
  rw [assigned?, hs] at h
  generalize r.feed d place raw = result at hfed h ⊢
  cases hfed with
  | idle hclean | gap hclean => exact absurd hclean hne
  | row hclean hraw hr =>
      rw [hr, hraw] at h
      cases h
  | started hclean hraw hstarted =>
      rw [hs] at hstarted
      cases hstarted with
      | homeless | duplicate | lost => cases h
      | assigned hq hcontent hnew =>
          simp only [] at h
          split at h
          · cases h
          · rw [hq.current_eq] at h
            cases h
            refine ⟨_, rfl, rfl, Store.own?_put_self ?_ key (some first)⟩
            simp [hcontent]

/-- What becomes of an open value, whatever lines follow: it ends before the next
line, and is stored unless that line is blank. -/
theorem own?_conclude_of_pending (hd : d.blankLinesInValues = false) {p : Pending}
    (hr : r.pending = some p) {first : Text}
    (hown : r.store.own? p.name p.key = some (some first)) {number : Nat} {rest : List Text}
    (hnext : ∀ line ∈ rest.head?, Line.clean d line = [] ∨ line.indented = false)
    (hlater : (p.name, p.key) ∉ r.assigned d source number rest) :
    (conclude source (r.feedAll d source number rest)).1.own? p.name p.key =
      some (some (if rest.head?.any fun line => (Line.clean d line).isEmpty then first
        else p.value)) := by
  have hflush := own?_flush_of_pending hr hown
  cases rest with
  | nil => exact hflush
  | cons line rest =>
      by_cases hblank : Line.clean d line = []
      -- The blank line closes the value without a flush. Any other line is met by a
      -- reader that has stored it.
      · have hfeed : r.feed d ⟨source, number⟩ line = ({ r with pending := none }, .ok ()) := by
          simp [feed, hr, hblank, hd]
        rw [assigned, hfeed, List.mem_append, not_or] at hlater
        have hclosed := own?_feedAll (not_pends_of_pending rfl) hlater.2
        rw [feedAll, hfeed, own?_conclude hclosed.2, hclosed.1]
        simpa [hblank] using hown
      · have hline : Item.continues d line = false := by
          simpa [Item.continues, hblank] using hnext line rfl
        rw [← assigned_flush hline] at hlater
        have hstored := own?_feedAll (not_pends_of_pending (pending_flush r)) hlater
        rw [← conclude_flush (by simpa using hline), own?_conclude hstored.2, hstored.1, hflush]
        simp [hblank]

end Reader

/-- A dialect in which a blank line ends a value. -/
def Dialect.curt : Dialect := { blankLinesInValues := false }

namespace Store

/-- Where blank lines end values, what a continued value is in the end: its lines
joined, unless it was a blank line that ended it. Then it is its first line. -/
theorem own?_readLines_of_run {d : Dialect} (hd : d.blankLinesInValues = false) {source : Text}
    {s : Store} {front run rest : List Text} {raw name key first : Text} {r : Reader}
    (hfront : Reader.feedAll d source 1 front { store := s } = (r, .ok ()))
    (hraw : r.assigned? d ⟨source, 1 + front.length⟩ raw = some (name, key))
    (hfirst : Statement.ofCleaned d (Line.clean d raw) = .entry key (some first))
    (hrun : ∀ line ∈ run, Line.clean d line ≠ [] ∧ line.indented = true)
    (hnext : ∀ line ∈ rest.head?, Line.clean d line = [] ∨ line.indented = false)
    (hlater : (name, key) ∉ Reader.assigned d source (1 + front.length + 1) (run ++ rest)
      (r.feed d ⟨source, 1 + front.length⟩ raw).1) :
    (s.readLines d source (front ++ raw :: (run ++ rest))).1.own? name key =
      some (some (if rest.head?.any fun line => (Line.clean d line).isEmpty then first
        else Item.whole d first run)) := by
  obtain ⟨q, hfeed, hpending, hown⟩ := Reader.feed_of_assigned? hraw hfirst
  rw [hfeed] at hlater
  have hall : q.feedAll d source (1 + front.length + 1) run =
      ({ q with pending := some ⟨name, key, first :: run.map (Line.clean d)⟩ }, .ok ()) :=
    Reader.feedAll_run (fun line hline hblank => absurd hblank (hrun line hline).1) hpending
      fun line hline => by simp [Item.continues, (hrun line hline).2]
  rw [Reader.assigned_append rest hall, List.mem_append, not_or] at hlater
  rw [readLines_eq_conclude, Reader.feedAll_append, hfront]
  simp only []
  rw [Reader.feedAll, hfeed]
  simp only []
  rw [Reader.feedAll_append, hall]
  exact Reader.own?_conclude_of_pending
    (r := { q with pending := some ⟨name, key, first :: run.map (Line.clean d)⟩ })
    hd rfl hown hnext hlater.2

/-- A value of two lines, with more lines behind it. -/
def continued (rest : List Text) : List Text :=
  ["[a]".toList] ++ "k = v".toList :: (["\tw".toList] ++ rest)

/-- A header stores both lines, a blank line leaves the first. -/
theorem own?_readLines_of_run_curt :
    Dialect.curt.blankLinesInValues = false ∧
      (readLines .curt [] (continued ["[b]".toList]) ⟨defaultSectionName, [], []⟩).1.own?
        "a".toList "k".toList = some (some "v\nw".toList) ∧
      (readLines .curt [] (continued [[], "[b]".toList]) ⟨defaultSectionName, [], []⟩).1.own?
        "a".toList "k".toList = some (some "v".toList) := by
  have hrun : ∀ line ∈ ["\tw".toList],
      Line.clean .curt line ≠ [] ∧ Text.indented line = true := by decide
  have hvalue := fun rest hnext hlater =>
    @own?_readLines_of_run .curt rfl [] ⟨defaultSectionName, [], []⟩ ["[a]".toList]
      ["\tw".toList] rest "k = v".toList "a".toList "k".toList "v".toList _ rfl rfl rfl hrun
      hnext hlater
  refine ⟨rfl, ?_, ?_⟩
  · exact hvalue ["[b]".toList] (by decide) (by decide)
  · exact hvalue [[], "[b]".toList] (by decide) (by decide)

/-- A line that was taken into a value is lost. -/
theorem own?_readLines_ne_whole :
    (readLines .curt [] (continued [[]]) ⟨defaultSectionName, [], []⟩).1.own? "a".toList
      "k".toList ≠ some (some (Item.whole .curt "v".toList ["\tw".toList])) := by
  decide

end Store

end Ini
