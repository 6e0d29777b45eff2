import Ini.Line
import Ini.Proofs.Text.Blank
import Mathlib.Data.List.Infix

/-!
# Lines without inline comments

An inline mark opens a comment at the start of a line and after a blank. A text
is quiet if no mark stands where it would open one. Whether its first character
stands in such a place depends on what is before the text, so that is a flag,
and a text may be quiet in one context and not in another.

For marks of one character the two main facts are that the marks leave a quiet
line as it is (`foldl_dropInline_of_quiet`), and that what they leave of any
line is quiet (`quiet_foldl_dropInline`).
-/

namespace Ini.Line

variable {marks : List Text} {mark text line front back : Text} {opens : Bool} {c : Char}

/-- No mark stands where it opens a comment. The flag says whether one may open
at the first character. -/
def Quiet (marks : List Text) : Bool → Text → Prop
  | _, [] => True
  | opens, c :: rest => ¬(opens = true ∧ [c] ∈ marks) ∧ Quiet marks (isBlank c) rest

@[simp] theorem quiet_nil (marks : List Text) (opens : Bool) : Quiet marks opens [] := trivial

@[simp] theorem quiet_cons :
    Quiet marks opens (c :: text) ↔ ¬(opens = true ∧ [c] ∈ marks) ∧ Quiet marks (isBlank c) text :=
  Iff.rfl

/-- Where there are no marks every text is quiet. -/
theorem quiet_of_nil (opens : Bool) (text : Text) : Quiet [] opens text := by
  induction text generalizing opens with
  | nil => trivial
  | cons c rest ih => exact ⟨by simp, ih _⟩

theorem quiet_cons_marks :
    Quiet (mark :: marks) opens text ↔ Quiet [mark] opens text ∧ Quiet marks opens text := by
  induction text generalizing opens with
  | nil => simp
  | cons c rest ih =>
      simp only [quiet_cons, ih, List.mem_cons, List.not_mem_nil, or_false]
      tauto

/-- A text that is quiet where a comment may open is quiet anywhere. -/
theorem Quiet.weaken (h : Quiet marks true text) (opens : Bool) : Quiet marks opens text := by
  cases text with
  | nil => trivial
  | cons c rest => exact ⟨fun hc => h.1 ⟨rfl, hc.2⟩, h.2⟩

/-- Where no comment may open, only the first character is exempt. -/
theorem quiet_true_iff :
    Quiet marks true text ↔ Quiet marks false text ∧ ∀ c ∈ text.head?, [c] ∉ marks := by
  cases text with
  | nil => simp
  | cons c rest => simp [and_comm]

theorem Quiet.of_isPrefix (h : Quiet marks opens text) (hfront : front <+: text) :
    Quiet marks opens front := by
  induction front generalizing opens text with
  | nil => trivial
  | cons c front ih =>
      obtain ⟨rest, rfl⟩ := hfront
      exact ⟨h.1, ih h.2 ⟨rest, rfl⟩⟩

theorem quiet_append_cons (hc : [c] ∉ marks) :
    Quiet marks opens (front ++ c :: back) ↔
      Quiet marks opens front ∧ Quiet marks (isBlank c) back := by
  induction front generalizing opens with
  | nil => simp [hc]
  | cons b front ih => simp [ih, and_assoc]

/-! ## Trimming, folding and rows -/

theorem Quiet.trimStart (h : Quiet marks opens text) : Quiet marks opens text.trimStart := by
  induction text generalizing opens with
  | nil => trivial
  | cons c rest ih =>
      cases hc : isBlank c with
      | false => rwa [Text.trimStart_cons hc]
      | true =>
          have hrest := h.2
          rw [hc] at hrest
          have hdrop : Text.trimStart (c :: rest) = Text.trimStart rest := by
            simp [Text.trimStart, hc]
          rw [hdrop]
          exact (ih hrest).weaken opens

theorem Quiet.trimEnd (h : Quiet marks opens text) : Quiet marks opens text.trimEnd := by
  obtain ⟨pad, htext, -⟩ := Text.exists_blank_append_trimEnd text
  exact h.of_isPrefix ⟨pad, htext.symm⟩

theorem Quiet.trim (h : Quiet marks opens text) : Quiet marks opens text.trim := h.trimStart.trimEnd

/-- Folding makes no marks that are not lower-case letters. -/
theorem Quiet.fold (h : Quiet marks opens text)
    (hmarks : ∀ mark ∈ marks, mark.any Char.isLower = false) : Quiet marks opens text.fold := by
  induction text generalizing opens with
  | nil => trivial
  | cons c rest ih =>
      rw [Text.fold_cons]
      refine ⟨fun hc => h.1 ⟨hc.1, ?_⟩, ?_⟩
      · have hlower : c.toLower.isLower = false := by simpa using hmarks _ hc.2
        rw [← Text.toLower_eq_self_of_isLower_eq_false hlower]
        exact hc.2
      · rw [Text.isBlank_toLower]
        exact ih h.2

theorem quiet_joinLines (hmarks : ∀ mark ∈ marks, mark.any isBlank = false) {first : Text}
    {rows : List Text} : ∀ {opens : Bool},
    Quiet marks opens (Text.joinLines (first :: rows)) ↔
      Quiet marks opens first ∧ ∀ row ∈ rows, Quiet marks true row := by
  have hnewline : ['\n'] ∉ marks := fun hmem => absurd (hmarks _ hmem) (by decide)
  induction rows generalizing first with
  | nil => simp [Text.joinLines]
  | cons row rows ih =>
      intro opens
      have hblank : isBlank '\n' = true := by decide
      rw [show Text.joinLines (first :: row :: rows) =
        first ++ '\n' :: Text.joinLines (row :: rows) from rfl, quiet_append_cons hnewline, hblank,
        ih, List.forall_mem_cons]

/-! ## What the marks take from a line -/

theorem beforeComment_isPrefix (mark : Text) (covered : Nat) (opens : Bool) (line : Text) :
    beforeComment mark covered opens line <+: line := by
  fun_induction beforeComment mark covered opens line with
  | case1 => exact List.prefix_rfl
  | case3 => exact List.nil_prefix
  | case2 _ _ _ _ ih | case4 _ _ _ _ _ ih | case5 _ _ _ _ ih =>
      exact List.cons_prefix_cons.2 ⟨rfl, ih⟩

theorem dropInline_isPrefix (line mark : Text) : dropInline line mark <+: line := by
  unfold dropInline
  split
  · exact List.prefix_rfl
  · exact beforeComment_isPrefix ..

theorem foldl_dropInline_isPrefix (marks : List Text) (line : Text) :
    marks.foldl dropInline line <+: line := by
  induction marks generalizing line with
  | nil => exact List.prefix_rfl
  | cons mark marks ih => exact (ih _).trans (dropInline_isPrefix line mark)

@[simp] theorem trim_clean (d : Dialect) (line : Text) : (clean d line).trim = clean d line := by
  rw [clean]
  split
  · rfl
  · exact Text.trim_trim _

theorem beforeComment_cons (mark : Char) (opens : Bool) (c : Char) (rest : Text) :
    beforeComment [mark] 0 opens (c :: rest) =
      if opens = true ∧ [c] ∈ [[mark]] then []
      else c :: beforeComment [mark] 0 (isBlank c) rest := by
  rw [beforeComment]
  by_cases hc : mark = c
  · simp [List.isPrefixOf, hc]
  · simp [List.isPrefixOf, hc, Ne.symm hc]

theorem quiet_beforeComment (mark : Char) (opens : Bool) (line : Text) :
    Quiet [[mark]] opens (beforeComment [mark] 0 opens line) := by
  induction line generalizing opens with
  | nil => exact quiet_nil ..
  | cons c rest ih =>
      rw [beforeComment_cons]
      split
      · exact quiet_nil ..
      · next hc => exact ⟨hc, ih _⟩

theorem beforeComment_of_quiet {mark : Char} (h : Quiet [[mark]] opens line) :
    beforeComment [mark] 0 opens line = line := by
  induction line generalizing opens with
  | nil => simp [beforeComment]
  | cons c rest ih => rw [beforeComment_cons, if_neg h.1, ih h.2]

/-- Behind a quiet text a mark is looked for as if nothing stood before its last
character. -/
theorem beforeComment_append {mark : Char} (h : Quiet [[mark]] opens (front ++ [c])) :
    beforeComment [mark] 0 opens (front ++ c :: back) =
      front ++ c :: beforeComment [mark] 0 (isBlank c) back := by
  induction front generalizing opens with
  | nil => exact (beforeComment_cons ..).trans (if_neg h.1)
  | cons b front ih => rw [List.cons_append, beforeComment_cons, if_neg h.1, ih h.2]; rfl

theorem dropInline_singleton (line : Text) (mark : Char) :
    dropInline line [mark] = beforeComment [mark] 0 true line := rfl

theorem quiet_foldl_dropInline (hmarks : ∀ mark ∈ marks, mark.length = 1) (line : Text) :
    Quiet marks true (marks.foldl dropInline line) := by
  induction marks generalizing line with
  | nil => exact quiet_of_nil ..
  | cons mark marks ih =>
      obtain ⟨c, rfl⟩ := List.length_eq_one_iff.1 (hmarks mark (by simp))
      rw [List.foldl_cons, quiet_cons_marks]
      refine ⟨?_, ih (fun other hother => hmarks other (by simp [hother])) _⟩
      exact (quiet_beforeComment c true line).of_isPrefix (foldl_dropInline_isPrefix ..)

theorem foldl_dropInline_of_quiet (hmarks : ∀ mark ∈ marks, mark.length = 1)
    (h : Quiet marks true line) : marks.foldl dropInline line = line := by
  induction marks with
  | nil => rfl
  | cons mark marks ih =>
      obtain ⟨c, rfl⟩ := List.length_eq_one_iff.1 (hmarks mark (by simp))
      obtain ⟨hmark, hrest⟩ := quiet_cons_marks.1 h
      rw [List.foldl_cons, dropInline_singleton, beforeComment_of_quiet hmark]
      exact ih (fun other hother => hmarks other (by simp [hother])) hrest

/-- A mark behind a blank takes the rest of the line, itself included. -/
theorem foldl_dropInline_comment (hmarks : ∀ mark ∈ marks, mark.length = 1) {blank : Char}
    (hblank : isBlank blank = true) (hquiet : Quiet marks true (front ++ [blank]))
    (hc : [c] ∈ marks) (back : Text) :
    marks.foldl dropInline (front ++ blank :: c :: back) = front ++ [blank] := by
  induction marks generalizing back with
  | nil => cases hc
  | cons mark marks ih =>
      obtain ⟨m, rfl⟩ := List.length_eq_one_iff.1 (hmarks mark (by simp))
      obtain ⟨hmark, hrest⟩ := quiet_cons_marks.1 hquiet
      have hmarks' : ∀ mark ∈ marks, mark.length = 1 := fun other hother =>
        hmarks other (by simp [hother])
      rw [List.foldl_cons, dropInline_singleton, beforeComment_append hmark, hblank,
        beforeComment_cons]
      by_cases hm : [c] ∈ [[m]]
      · rw [if_pos ⟨rfl, hm⟩]
        exact foldl_dropInline_of_quiet hmarks' hrest
      -- This mark may shorten what stands behind `c`, but `c` itself stays where it is.
      · rw [if_neg fun h => hm h.2]
        exact ih hmarks' hrest ((List.mem_cons.1 hc).resolve_left fun e => hm (by simp [e])) _

end Ini.Line
