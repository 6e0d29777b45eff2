import Ini.Line
import Mathlib.Data.List.Infix

/-!
# Where a text is cut

A cut is made at the leftmost place where some mark stands, and by the mark listed first
among those that stand there. This makes the cut a single one (`cut_eq_some_iff`), and
`cut_eq_none_iff` says when there is none. What is in front of a cut has no mark in it.

Where all marks are single characters a cut is a matter of which characters occur, and that
is the form in which the writer and the reader of a line talk about it.
-/

namespace Ini.Text

variable {marks : List Text} {mark text before after : Text} {found other : Cut} {c : Char}

theorem markAtStart_eq_none_iff :
    markAtStart marks text = none ↔ ∀ mark ∈ marks, mark ≠ [] → ¬mark <+: text := by
  simp [markAtStart]

theorem markAtStart_eq_some_iff :
    markAtStart marks text = some mark ↔ (mark ≠ [] ∧ mark <+: text) ∧
      ∃ earlier later, marks = earlier ++ mark :: later ∧
        ∀ other ∈ earlier, other ≠ [] → ¬other <+: text := by
  have hstands : ∀ other : Text, (!other.isEmpty && other.isPrefixOf text) = true ↔
      other ≠ [] ∧ other <+: text := by
    intro other
    rw [Bool.and_eq_true, Bool.not_eq_true', List.isEmpty_eq_false_iff, List.isPrefixOf_iff_prefix]
  have hnot : ∀ other : Text, (!(!other.isEmpty && other.isPrefixOf text)) = true ↔
      (other ≠ [] → ¬other <+: text) := by
    intro other
    rw [Bool.not_eq_true', ← Bool.not_eq_true, hstands, not_and]
  simp only [markAtStart, List.find?_eq_some_iff_append, hstands, hnot]

theorem markAtStart_eq_some (h : markAtStart marks text = some mark) :
    mark ∈ marks ∧ mark ≠ [] ∧ mark <+: text :=
  ⟨List.mem_of_find?_eq_some h, (markAtStart_eq_some_iff.1 h).1⟩

theorem cut_eq_none_iff :
    cut marks text = none ↔ ∀ mark ∈ marks, mark ≠ [] → ¬mark <:+: text := by
  induction text with
  | nil => simp [cut]
  | cons c rest ih =>
      rw [cut]
      cases hmark : markAtStart marks (c :: rest) with
      | some mark =>
          obtain ⟨hmem, hne, hpre⟩ := markAtStart_eq_some hmark
          simp only [reduceCtorEq, false_iff]
          exact fun h => h mark hmem hne hpre.isInfix
      | none =>
          rw [markAtStart_eq_none_iff] at hmark
          simp only [Option.map_eq_none_iff, ih, List.infix_cons_iff, not_or]
          constructor
          · exact fun h mark hmem hne => ⟨hmark mark hmem hne, h mark hmem hne⟩
          · exact fun h mark hmem hne => (h mark hmem hne).2

/-! ## Leftmost, then first listed -/

/-- The mark stands at the leftmost place where one does, and none of those listed before
it stands there. -/
structure LeftmostFirst (marks : List Text) (text : Text) (found : Cut) : Prop where
  append_eq : found.before ++ found.mark ++ found.after = text
  ne_nil : found.mark ≠ []
  leftmost : ∀ place < found.before.length, ∀ mark ∈ marks, mark ≠ [] →
    ¬mark <+: text.drop place
  first : ∃ earlier later, marks = earlier ++ found.mark :: later ∧
    ∀ mark ∈ earlier, mark ≠ [] → ¬mark <+: text.drop found.before.length

theorem leftmostFirst_cut (h : cut marks text = some found) : LeftmostFirst marks text found := by
  induction text generalizing found with
  | nil => cases h
  | cons c rest ih =>
      have hparts := cut_append h
      have hne := cut_mark_ne_nil h
      rw [cut] at h
      split at h
      · next mark hmark =>
          obtain rfl := Option.some.inj h
          exact ⟨hparts, hne, fun place hplace => absurd hplace (Nat.not_lt_zero place),
            (markAtStart_eq_some_iff.1 hmark).2⟩
      · next hmark =>
          obtain ⟨inner, hinner, rfl⟩ := Option.map_eq_some_iff.1 h
          have hrest := ih hinner
          refine ⟨hparts, hne, fun place hplace mark hmem hne => ?_, hrest.first⟩
          cases place with
          | zero => exact markAtStart_eq_none_iff.1 hmark mark hmem hne
          | succ place =>
              exact hrest.leftmost place (Nat.lt_of_succ_lt_succ hplace) mark hmem hne

namespace LeftmostFirst

theorem isPrefix (h : LeftmostFirst marks text found) :
    found.mark <+: text.drop found.before.length := by
  refine ⟨found.after, ?_⟩
  rw [← h.append_eq, List.append_assoc, List.drop_left]

theorem mem (h : LeftmostFirst marks text found) : found.mark ∈ marks := by
  obtain ⟨earlier, later, hmarks, -⟩ := h.first
  rw [hmarks]
  exact List.mem_append_right _ List.mem_cons_self

theorem length_le (h : LeftmostFirst marks text found) (h' : LeftmostFirst marks text other) :
    found.before.length ≤ other.before.length := by
  by_contra hlt
  exact h.leftmost _ (Nat.lt_of_not_le hlt) _ h'.mem h'.ne_nil h'.isPrefix

theorem unique (h : LeftmostFirst marks text found) (h' : LeftmostFirst marks text other) :
    found = other := by
  have hlength : found.before.length = other.before.length :=
    Nat.le_antisymm (h.length_le h') (h'.length_le h)
  have hmark : markAtStart marks (text.drop found.before.length) = some found.mark :=
    markAtStart_eq_some_iff.2 ⟨⟨h.ne_nil, h.isPrefix⟩, h.first⟩
  have hmark' : markAtStart marks (text.drop other.before.length) = some other.mark :=
    markAtStart_eq_some_iff.2 ⟨⟨h'.ne_nil, h'.isPrefix⟩, h'.first⟩
  have hmarks : found.mark = other.mark := by
    rw [hlength, hmark'] at hmark
    exact (Option.some.inj hmark).symm
  have heq : found.before ++ (found.mark ++ found.after) =
      other.before ++ (other.mark ++ other.after) := by
    rw [← List.append_assoc, ← List.append_assoc, h.append_eq, h'.append_eq]
  obtain ⟨hbefore, hrest⟩ := List.append_inj heq hlength
  rw [hmarks] at hrest
  have hafter : found.after = other.after := List.append_cancel_left hrest
  cases found
  cases other
  exact Cut.mk.injEq .. |>.mpr ⟨hbefore, hmarks, hafter⟩

end LeftmostFirst

theorem cut_eq_some_iff : cut marks text = some found ↔ LeftmostFirst marks text found := by
  constructor
  · exact leftmostFirst_cut
  · intro h
    cases hcut : cut marks text with
    | none =>
        have hinside : found.mark <:+: text := ⟨found.before, found.after, h.append_eq⟩
        exact absurd hinside (cut_eq_none_iff.1 hcut _ h.mem h.ne_nil)
    | some other => rw [(leftmostFirst_cut hcut).unique h]

theorem mem_of_cut_eq_some (h : cut marks text = some found) : found.mark ∈ marks :=
  (leftmostFirst_cut h).mem

/-- No mark stands further left than where the cut is made. -/
theorem length_cut_before_le (h : cut marks text = some found) (hmem : mark ∈ marks)
    (hne : mark ≠ []) {front : Text} (hfront : front ++ mark <+: text) :
    found.before.length ≤ front.length := by
  by_contra hlt
  refine (leftmostFirst_cut h).leftmost _ (Nat.lt_of_not_le hlt) mark hmem hne ?_
  obtain ⟨tail, rfl⟩ := hfront
  rw [List.append_assoc, List.drop_left]
  exact List.prefix_append mark tail

theorem not_infix_before (h : cut marks text = some found) (hmem : mark ∈ marks)
    (hne : mark ≠ []) : ¬mark <:+: found.before := by
  rintro ⟨front, back, hbefore⟩
  have hfront : front ++ mark <+: text := by
    refine ⟨back ++ found.mark ++ found.after, ?_⟩
    rw [← cut_append h, ← hbefore]
    simp
  have hle := length_cut_before_le h hmem hne hfront
  have hpos := List.length_pos_iff.2 hne
  rw [← hbefore, List.length_append, List.length_append] at hle
  omega

/-- The leftmost place in a text where one of the marks stands. -/
structure FirstMark (marks : List Text) (text before mark after : Text) : Prop where
  mem : mark ∈ marks
  ne_nil : mark ≠ []
  append_eq : before ++ mark ++ after = text
  length_le : ∀ other ∈ marks, other ≠ [] → ∀ front, front ++ other <+: text →
    before.length ≤ front.length

theorem firstMark_of_cut (h : cut marks text = some found) :
    FirstMark marks text found.before found.mark found.after :=
  ⟨mem_of_cut_eq_some h, cut_mark_ne_nil h, cut_append h,
    fun _ hmem hne _ hfront => length_cut_before_le h hmem hne hfront⟩

theorem FirstMark.before_eq {before' mark' after' : Text}
    (h : FirstMark marks text before mark after) (h' : FirstMark marks text before' mark' after') :
    before = before' := by
  have hle : before.length ≤ before'.length :=
    h.length_le mark' h'.mem h'.ne_nil before' ⟨after', h'.append_eq⟩
  have hge : before'.length ≤ before.length :=
    h'.length_le mark h.mem h.ne_nil before ⟨after, h.append_eq⟩
  have heq : before ++ (mark ++ after) = before' ++ (mark' ++ after') := by
    rw [← List.append_assoc, ← List.append_assoc, h.append_eq, h'.append_eq]
  exact (List.append_inj heq (by omega)).1

theorem not_mem_marks_of_mem_before (h : cut marks text = some found) (hc : c ∈ found.before) :
    [c] ∉ marks := fun hmem =>
  not_infix_before h hmem (List.cons_ne_nil c []) ((List.singleton_infix_iff c _).2 hc)

/-! ## Single characters -/

section Single

variable (hmarks : ∀ mark ∈ marks, mark.length = 1)

include hmarks

theorem exists_eq_singleton (hmem : mark ∈ marks) : ∃ c, mark = [c] :=
  List.length_eq_one_iff.1 (hmarks mark hmem)

theorem markAtStart_cons (c : Char) (rest : Text) :
    markAtStart marks (c :: rest) = if [c] ∈ marks then some [c] else none := by
  split
  · next hmem =>
      cases hmark : markAtStart marks (c :: rest) with
      | none => exact absurd ⟨rest, rfl⟩ (markAtStart_eq_none_iff.1 hmark _ hmem (by simp))
      | some mark =>
          obtain ⟨hin, -, hpre⟩ := markAtStart_eq_some hmark
          obtain ⟨b, rfl⟩ := exists_eq_singleton hmarks hin
          rw [(List.cons_prefix_cons.1 hpre).1]
  · next hmem =>
      rw [markAtStart_eq_none_iff]
      intro mark hin _ hpre
      obtain ⟨b, rfl⟩ := exists_eq_singleton hmarks hin
      exact hmem ((List.cons_prefix_cons.1 hpre).1 ▸ hin)

theorem cut_eq_none_iff_of_single : cut marks text = none ↔ ∀ c ∈ text, [c] ∉ marks := by
  rw [cut_eq_none_iff]
  constructor
  · intro h c hc hmem
    exact h [c] hmem (by simp) ((List.singleton_infix_iff c text).2 hc)
  · intro h mark hmem _ hinfix
    obtain ⟨c, rfl⟩ := exists_eq_singleton hmarks hmem
    exact h c ((List.singleton_infix_iff c text).1 hinfix) hmem

theorem cut_append_cons (hbefore : ∀ b ∈ before, [b] ∉ marks) (hmem : [c] ∈ marks) :
    cut marks (before ++ c :: after) = some ⟨before, [c], after⟩ := by
  induction before with
  | nil => simp [cut, markAtStart_cons hmarks, hmem]
  | cons b rest ih =>
      have hb : [b] ∉ marks := hbefore b (by simp)
      have hrest := ih fun x hx => hbefore x (by simp [hx])
      simp [cut, markAtStart_cons hmarks, hb, hrest]

end Single

end Ini.Text

namespace Ini.Line

variable {marks : List Text}

@[simp] theorem startsComment_nil (marks : List Text) : startsComment marks [] = false := by
  simp [startsComment, Text.markAtStart]

theorem startsComment_cons (hmarks : ∀ mark ∈ marks, mark.length = 1) (c : Char) (rest : Text) :
    startsComment marks (c :: rest) = decide ([c] ∈ marks) := by
  rw [startsComment, Text.markAtStart_cons hmarks]
  by_cases hmem : [c] ∈ marks <;> simp [hmem]

end Ini.Line
