import Ini.Proofs.Text.Blank
import Ini.Proofs.Text.Cut
import Ini.Statement

/-!
# The delimiter of a line

Delimiters may be of any length and may be parts of one another, so at one place in a line
several can stand. The line is cut at the leftmost place where any stands, by the one listed
first among those that stand there, and this makes the cut a single one
(`cut_eq_some_iff`). To look for the delimiters one after the other and to keep the nearest,
a later one only if it stands further left, comes to the same (`foldl_nearer`).

What is in front of the cut has no delimiter in it. A key is that text trimmed and folded,
and folding can make a delimiter, but only one with a lower-case letter.
-/

namespace Ini

namespace Text

variable {marks : List Text} {mark line text rest : Text} {found other : Cut} {c : Char}

/-! ## One mark after the other -/

/-- The leftmost place where a mark stands that is not empty. -/
def place? (mark : Text) : Text → Option Nat
  | [] => none
  | c :: rest => if mark.isPrefixOf (c :: rest) then some 0 else (place? mark rest).map (· + 1)

/-- The nearest mark after one more has been looked for: that one if it stands further
left than the nearest so far. -/
def nearer (line : Text) (nearest : Option (Nat × Text)) (mark : Text) : Option (Nat × Text) :=
  if mark.isEmpty then nearest
  else
    match place? mark line with
    | none => nearest
    | some place =>
      match nearest with
      | none => some (place, mark)
      | some (least, other) => if place < least then some (place, mark) else some (least, other)

/-- Where a line is cut, and by which mark. -/
def Cut.spot (found : Cut) : Nat × Text := (found.before.length, found.mark)

theorem spot_cut_of_some (h : markAtStart marks (c :: rest) = some mark) :
    (cut marks (c :: rest)).map Cut.spot = some (0, mark) := by
  rw [cut, h]
  rfl

theorem spot_cut_of_none (h : markAtStart marks (c :: rest) = none) :
    (cut marks (c :: rest)).map Cut.spot =
      ((cut marks rest).map Cut.spot).map (Prod.map (· + 1) id) := by
  rw [cut, h]
  cases cut marks rest <;> rfl

theorem markAtStart_concat (marks : List Text) (mark text : Text) :
    markAtStart (marks ++ [mark]) text =
      (markAtStart marks text).or (markAtStart [mark] text) := List.find?_append

theorem place?_cons_of_not_isPrefix (hmark : ¬mark <+: c :: rest) :
    place? mark (c :: rest) = (place? mark rest).map (· + 1) := by
  rw [place?, if_neg (by rwa [List.isPrefixOf_iff_prefix])]

theorem nearer_of_place?_eq_none (h : place? mark line = none)
    (nearest : Option (Nat × Text)) : nearer line nearest mark = nearest := by
  rw [nearer, h]
  split <;> rfl

theorem nearer_of_place?_eq_some (hne : mark ≠ []) {place : Nat} (h : place? mark line = some place)
    (nearest : Option (Nat × Text)) :
    nearer line nearest mark = some (nearest.elim (place, mark) fun spot =>
      if place < spot.1 then (place, mark) else spot) := by
  rw [nearer, if_neg (by simpa using hne), h]
  cases nearest with
  | none => rfl
  | some spot => exact (apply_ite some ..).symm

/-- A mark that does not stand at the start of a line stands in it where it stands behind
the first character. -/
theorem nearer_cons (hne : mark ≠ []) (hmark : ¬mark <+: c :: rest)
    (nearest : Option (Nat × Text)) :
    nearer (c :: rest) (nearest.map (Prod.map (· + 1) id)) mark =
      (nearer rest nearest mark).map (Prod.map (· + 1) id) := by
  have hcons := place?_cons_of_not_isPrefix hmark
  cases hplace : place? mark rest with
  | none =>
      rw [hplace] at hcons
      rw [nearer_of_place?_eq_none hcons, nearer_of_place?_eq_none hplace]
  | some place =>
      rw [hplace] at hcons
      rw [nearer_of_place?_eq_some hne hcons, nearer_of_place?_eq_some hne hplace]
      cases nearest with
      | none => rfl
      | some spot =>
          simp only [Option.map_some, Option.elim_some, Prod.map_fst, Nat.add_lt_add_iff_right]
          split <;> rfl

theorem spot_cut_concat (hne : mark ≠ []) (marks : List Text) (line : Text) :
    (cut (marks ++ [mark]) line).map Cut.spot =
      nearer line ((cut marks line).map Cut.spot) mark := by
  induction line with
  | nil => exact (nearer_of_place?_eq_none rfl none).symm
  | cons c rest ih =>
      have hconcat := markAtStart_concat marks mark (c :: rest)
      cases hfirst : markAtStart marks (c :: rest) with
      | some other =>
          -- Nothing stands further left than the start of the line.
          rw [hfirst, Option.some_or] at hconcat
          rw [spot_cut_of_some hconcat, spot_cut_of_some hfirst]
          cases hplace : place? mark (c :: rest) with
          | none => rw [nearer_of_place?_eq_none hplace]
          | some place =>
              rw [nearer_of_place?_eq_some hne hplace, Option.elim_some, if_neg (Nat.not_lt_zero _)]
      | none =>
          rw [hfirst, Option.none_or] at hconcat
          rw [spot_cut_of_none hfirst]
          by_cases hmark : mark <+: c :: rest
          · have hplace : place? mark (c :: rest) = some 0 := by
              rw [place?, if_pos (List.isPrefixOf_iff_prefix.2 hmark)]
            have hstart : markAtStart [mark] (c :: rest) = some mark := by
              simp [markAtStart, hne, hmark]
            rw [spot_cut_of_some (hconcat.trans hstart), nearer_of_place?_eq_some hne hplace]
            cases cut marks rest <;> rfl
          · have hstart : markAtStart [mark] (c :: rest) = none :=
              markAtStart_eq_none_iff.2 (by simpa using fun _ => hmark)
            rw [spot_cut_of_none (hconcat.trans hstart), nearer_cons hne hmark, ih]

theorem cut_concat_nil (marks : List Text) (line : Text) :
    cut (marks ++ [[]]) line = cut marks line := by
  have hnil : ∀ text : Text, markAtStart (marks ++ [[]]) text = markAtStart marks text := by
    intro text
    rw [markAtStart_concat]
    exact Option.or_none
  induction line with
  | nil => rfl
  | cons c rest ih => rw [cut, cut, hnil, ih]

/-- Looking for one mark after the other, and keeping the nearest, finds where the line is
cut. -/
theorem foldl_nearer (marks : List Text) (line : Text) :
    marks.foldl (nearer line) none = (cut marks line).map Cut.spot := by
  induction marks using List.reverseRecOn with
  | nil =>
      rw [cut_eq_none_iff.2 (List.forall_mem_nil _)]
      rfl
  | append_singleton marks mark ih =>
      rw [List.foldl_append, List.foldl_cons, List.foldl_nil, ih]
      by_cases hne : mark = []
      · rw [hne, cut_concat_nil]
        rfl
      · exact (spot_cut_concat hne marks line).symm

/-! ## In front of the cut -/

theorem trim_infix (text : Text) : text.trim <:+: text := by
  obtain ⟨front, back, htext, -⟩ := exists_eq_append_trim_append text
  exact ⟨front, back, htext.symm⟩

/-- Folding makes no mark that is free of lower-case letters. -/
theorem infix_of_infix_fold (hlower : mark.any Char.isLower = false) (h : mark <:+: text.fold) :
    mark <:+: text := by
  obtain ⟨part, hpart, rfl⟩ := List.infix_map_iff.1 h
  have hself : ∀ c ∈ part, c.toLower = c := by
    intro c hc
    refine toLower_eq_self_of_isLower_eq_false ?_
    have hnone := List.any_eq_false.1 hlower _ (List.mem_map_of_mem hc)
    exact Bool.eq_false_iff.2 hnone
  rwa [List.map_congr_left hself, List.map_id']

end Text

namespace Statement

variable {d : Dialect} {line mark : Text}

theorem not_infix_keyPart (hmem : mark ∈ d.delimiters) (hne : mark ≠ []) :
    ¬mark <:+: keyPart d line := by
  unfold keyPart
  split
  · next found hcut => exact Text.not_infix_before hcut hmem hne
  · next hcut => exact Text.cut_eq_none_iff.1 hcut mark hmem hne

/-- A line is cut at the leftmost place where a delimiter stands, and by the first listed of
those that stand there; it is not cut just if there is none in it. In front of the cut there
is none, nor in the key, even folded, save those with a lower-case letter. -/
theorem cut_leftmostFirst (d : Dialect) (line : Text) :
    (Text.cut d.delimiters line = none ↔
      ∀ mark ∈ d.delimiters, mark ≠ [] → ¬mark <:+: line) ∧
    (∀ found, Text.cut d.delimiters line = some found ↔
      Text.LeftmostFirst d.delimiters line found) ∧
    d.delimiters.foldl (Text.nearer line) none =
      (Text.cut d.delimiters line).map Text.Cut.spot ∧
    (∀ found, Text.cut d.delimiters line = some found →
      ∀ mark ∈ d.delimiters, mark ≠ [] → ¬mark <:+: found.before) ∧
    ∀ key value, ofCleaned d line = .entry key value →
      key = (keyPart d line).trim.fold ∧
        ∀ mark ∈ d.delimiters, mark ≠ [] → ¬mark <:+: (keyPart d line).trim ∧
          (mark.any Char.isLower = false → ¬mark <:+: key) := by
  refine ⟨Text.cut_eq_none_iff, fun found => Text.cut_eq_some_iff, Text.foldl_nearer _ _,
    fun found hcut mark hmem hne => Text.not_infix_before hcut hmem hne,
    fun key value h => ?_⟩
  have hkey := key_of_ofCleaned h
  refine ⟨hkey, fun mark hmem hne => ?_⟩
  have hfree : ¬mark <:+: (keyPart d line).trim := fun hinside =>
    not_infix_keyPart hmem hne (hinside.trans (Text.trim_infix _))
  refine ⟨hfree, fun hlower hinside => hfree ?_⟩
  rw [hkey] at hinside
  exact Text.infix_of_infix_fold hlower hinside

/-- Delimiters that overlap, one that is empty, and a lower-case letter. -/
def overlapping : Dialect :=
  { Dialect.standard with
    delimiters := [[], "=>".toList, ":=".toList, ":".toList, "y".toList] }

/-- The folded key has a lower-case delimiter in it, the key as it was written has none. -/
theorem cut_leftmostFirst_overlapping :
    Text.LeftmostFirst overlapping.delimiters "KEYS :=> v".toList
        ⟨"KEYS ".toList, ":=".toList, "> v".toList⟩ ∧
      ofCleaned overlapping "KEYS :=> v".toList =
        .entry "keys".toList (some "> v".toList) ∧
      "y".toList <:+: "keys".toList ∧
      (∀ mark ∈ overlapping.delimiters, mark ≠ [] →
        ¬mark <:+: (keyPart overlapping "KEYS :=> v".toList).trim) := by
  have hentry : ofCleaned overlapping "KEYS :=> v".toList =
      .entry "keys".toList (some "> v".toList) := by decide
  obtain ⟨-, hcut, -, -, hkey⟩ := cut_leftmostFirst overlapping "KEYS :=> v".toList
  exact ⟨(hcut _).1 (by decide), hentry, by decide,
    fun mark hmem hne => ((hkey _ _ hentry).2 mark hmem hne).1⟩

end Statement

end Ini
