import Ini.Proofs.Text.Cut
import Ini.Proofs.Text.Quiet
import Mathlib.Order.Bounds.Defs

/-!
# Where comments start

Inline marks are applied one after the other, each to what the one before it has left,
and each is looked for from left to right without overlap. So an occurrence can be hidden
by another of the same mark, or be cut in half by a comment that an earlier mark opens,
and it is not plain that what is left holds no comment, nor that the order of the marks
makes no difference.

What is left is free of comments whatever the marks are, blanks in them included. For an
occurrence that begins further left ends further left too: whatever hides an occurrence
in the line is as much part of any front of the line that the occurrence is part of
(`beforeComment_of_isPrefix`).

The order does make a difference when a mark has a blank in it. When none has, an
occurrence that is hidden or cut in half could not have opened a comment, and all marks
together cut the line at the leftmost place where one of them opens one
(`foldl_dropInline_eq`).
-/

namespace Ini.Line

variable {d : Dialect} {marks : List Text} {mark text line front pad : Text} {opens : Bool}
  {covered : Nat}

/-! ## What is left is left again -/

theorem beforeComment_of_length_lt (h : text.length < mark.length) :
    beforeComment mark covered opens text = text := by
  induction text generalizing covered opens with
  | nil => rw [beforeComment]
  | cons c rest ih =>
      have hrest : rest.length < mark.length := Nat.lt_of_succ_lt h
      cases covered with
      | succ n => rw [beforeComment, ih hrest]
      | zero =>
          have hmark : mark.isPrefixOf (c :: rest) = false := by
            rw [← Bool.not_eq_true, List.isPrefixOf_iff_prefix]
            exact fun hpre => Nat.not_lt.2 hpre.length_le h
          rw [beforeComment, hmark, if_neg Bool.false_ne_true, ih hrest]

/-- A front of what stands before a comment has no comment in it. -/
theorem beforeComment_of_isPrefix (h : front <+: beforeComment mark covered opens text) :
    beforeComment mark covered opens front = front := by
  fun_induction beforeComment mark covered opens text generalizing front with
  | case1 | case3 =>
      rw [List.prefix_nil.1 h, beforeComment]
  | case2 covered opens c rest ih =>
      rcases List.prefix_cons_iff.1 h with rfl | ⟨tail, rfl, htail⟩
      · rw [beforeComment]
      · rw [beforeComment, ih htail]
  | case4 opens c rest hmark hopens ih =>
      rcases List.prefix_cons_iff.1 h with rfl | ⟨tail, rfl, htail⟩
      · rw [beforeComment]
      · rw [beforeComment, if_neg hopens]
        split
        · rw [ih htail]
        · next hshort =>
            -- The front ends inside this occurrence, so no other can end before it does.
            have hrest : tail <+: rest := htail.trans (beforeComment_isPrefix ..)
            rw [List.isPrefixOf_iff_prefix] at hmark hshort
            have hlt : (c :: tail).length < mark.length := by
              refine Nat.lt_of_not_le fun hle => hshort ?_
              exact List.prefix_of_prefix_length_le hmark (List.cons_prefix_cons.2 ⟨rfl, hrest⟩) hle
            rw [beforeComment_of_length_lt (Nat.lt_of_succ_lt hlt)]
  | case5 opens c rest hmark ih =>
      rcases List.prefix_cons_iff.1 h with rfl | ⟨tail, rfl, htail⟩
      · rw [beforeComment]
      · have hrest : tail <+: rest := htail.trans (beforeComment_isPrefix ..)
        have hmark' : ¬mark.isPrefixOf (c :: tail) = true := by
          rw [List.isPrefixOf_iff_prefix] at hmark ⊢
          exact fun hpre => hmark (hpre.trans (List.cons_prefix_cons.2 ⟨rfl, hrest⟩))
        rw [beforeComment, if_neg hmark', ih htail]

theorem dropInline_of_isPrefix (h : front <+: dropInline line mark) :
    dropInline front mark = front := by
  rw [dropInline] at h ⊢
  split at h
  · next hempty => rw [if_pos hempty]
  · next hempty => rw [if_neg hempty, beforeComment_of_isPrefix h]

theorem dropInline_of_isPrefix_foldl (hmem : mark ∈ marks)
    (h : front <+: marks.foldl dropInline line) : dropInline front mark = front := by
  induction marks generalizing line with
  | nil => cases hmem
  | cons other marks ih =>
      rcases List.mem_cons.1 hmem with rfl | hmem
      · rw [List.foldl_cons] at h
        exact dropInline_of_isPrefix (h.trans (foldl_dropInline_isPrefix ..))
      · exact ih hmem h

/-- At the start of a text and after a blank a mark opens a comment alike. -/
theorem dropInline_of_blank_append (hpad : ∀ c ∈ pad, isBlank c = true)
    (h : dropInline (pad ++ text) mark = pad ++ text) : dropInline text mark = text := by
  rw [dropInline] at h ⊢
  split at h
  · next hempty => rw [if_pos hempty]
  · next hempty =>
      rw [if_neg hempty]
      induction pad with
      | nil => exact h
      | cons c pad ih =>
          obtain ⟨hc, hpad⟩ := List.forall_mem_cons.1 hpad
          rw [List.cons_append, beforeComment, hc] at h
          split at h
          · cases h
          · exact ih hpad (List.cons_inj_right c |>.1 h)

@[simp] theorem dropInline_nil (mark : Text) : dropInline [] mark = [] :=
  List.prefix_nil.1 (dropInline_isPrefix [] mark)

theorem dropInline_clean (hmem : mark ∈ d.inlineMarks) (line : Text) :
    dropInline (clean d line) mark = clean d line := by
  rw [clean]
  split
  · exact dropInline_nil mark
  · obtain ⟨pad, hpad, hpre⟩ := Text.exists_blank_append_trim (d.inlineMarks.foldl dropInline line)
    exact dropInline_of_blank_append hpad (dropInline_of_isPrefix_foldl hmem hpre)

theorem startsComment_eq_false_iff :
    startsComment marks line = false ↔ ∀ mark ∈ marks, mark ≠ [] → ¬mark <+: line := by
  rw [startsComment, Option.isSome_eq_false_iff, Option.isNone_iff_eq_none,
    Text.markAtStart_eq_none_iff]

/-- The inline marks take nothing from the start of a line, unless they take all. -/
theorem startsComment_clean (d : Dialect) (line : Text) :
    startsComment d.commentMarks (clean d line) = false := by
  rw [clean]
  split
  · exact startsComment_nil _
  · next hline =>
      rw [Bool.not_eq_true, startsComment_eq_false_iff] at hline
      rw [startsComment_eq_false_iff]
      intro mark hmem hne hpre
      exact hline mark hmem hne
        (hpre.trans (Text.trim_isPrefix_trim (foldl_dropInline_isPrefix ..)))

theorem foldl_dropInline_of_forall (h : ∀ mark ∈ marks, dropInline line mark = line) :
    marks.foldl dropInline line = line := by
  induction marks with
  | nil => rfl
  | cons mark marks ih =>
      obtain ⟨hmark, hmarks⟩ := List.forall_mem_cons.1 h
      rw [List.foldl_cons, hmark, ih hmarks]

/-- A line that no mark shortens is cleaned of the blanks around it only. -/
theorem clean_of_forall (hcomment : startsComment d.commentMarks line.trim = false)
    (hinline : ∀ mark ∈ d.inlineMarks, dropInline line mark = line) : clean d line = line.trim := by
  rw [clean, hcomment, if_neg Bool.false_ne_true, foldl_dropInline_of_forall hinline]

/-- A mark that does not begin with a blank is not met in the blanks before a text. -/
theorem dropInline_blank_append (hpad : ∀ c ∈ pad, isBlank c = true)
    (hmark : mark.indented = false) (text : Text) :
    dropInline (pad ++ text) mark = pad ++ dropInline text mark := by
  cases mark with
  | nil => rfl
  | cons m mark =>
      have hm : isBlank m = false := hmark
      induction pad with
      | nil => rfl
      | cons c pad ih =>
          obtain ⟨hc, hpad⟩ := List.forall_mem_cons.1 hpad
          have hne : m ≠ c := fun e => absurd hc (by simp [← e, hm])
          have hpre : ¬(m :: mark).isPrefixOf (c :: (pad ++ text)) = true := by
            rw [List.isPrefixOf_iff_prefix, List.cons_prefix_cons]
            exact fun h => hne h.1
          have hrest : beforeComment (m :: mark) 0 true (pad ++ text) =
              pad ++ dropInline text (m :: mark) := ih hpad
          rw [dropInline, if_neg (by simp), List.cons_append, beforeComment, if_neg hpre, hc, hrest]
          rfl

/-- Cleaning a line again changes nothing: what is left is no comment, and no inline mark
shortens it, whatever the marks are. That holds behind blanks too, where a row of a value
is written, unless an inline mark begins with a blank. -/
theorem clean_clean (d : Dialect) (line : Text) :
    clean d (clean d line) = clean d line ∧
      startsComment d.commentMarks (clean d line) = false ∧
      (∀ mark ∈ d.inlineMarks, dropInline (clean d line) mark = clean d line) ∧
      ∀ pad, pad.all isBlank = true → (∀ mark ∈ d.inlineMarks, Text.indented mark = false) →
        clean d (pad ++ clean d line) = clean d line := by
  have htrim : (clean d line).trim = clean d line := trim_clean d line
  have hcomment : startsComment d.commentMarks (clean d line).trim = false := by
    rw [htrim]
    exact startsComment_clean d line
  refine ⟨?_, startsComment_clean d line, fun mark hmem => dropInline_clean hmem line, ?_⟩
  · rw [clean_of_forall hcomment fun mark hmem => dropInline_clean hmem line, htrim]
  · intro pad hpad hmarks
    rw [List.all_eq_true] at hpad
    have htrim' : (pad ++ clean d line).trim = clean d line := by
      rw [Text.trim_blank_append hpad, htrim]
    rw [clean_of_forall, htrim']
    · rw [htrim']
      exact startsComment_clean d line
    · intro mark hmem
      rw [dropInline_blank_append hpad (hmarks mark hmem), dropInline_clean hmem]

/-- A dialect with inline marks that overlap themselves and each other, hold blanks or
are empty. -/
def tangled : Dialect := { inlineMarks := ["; ;".toList, "##".toList, [], "# ".toList] }

/-- The second `; ;` of the row is hidden by the first, which opens no comment, and stays
hidden. -/
theorem clean_clean_tangled :
    clean tangled "\tv; ; ; x ## y".toList = "v; ; ; x".toList ∧
      clean tangled "v; ; ; x".toList = "v; ; ; x".toList ∧
      clean tangled "\tv; ; ; x".toList = "v; ; ; x".toList := by
  have hrow : clean tangled "\tv; ; ; x ## y".toList = "v; ; ; x".toList := by decide
  obtain ⟨hagain, -, -, hbehind⟩ := clean_clean tangled "\tv; ; ; x ## y".toList
  rw [hrow] at hagain hbehind
  exact ⟨hrow, hagain, hbehind ['\t'] (by decide) (by decide)⟩

/-- A mark that begins with a blank is met where a row is indented. -/
example :
    clean { inlineMarks := ["\tx".toList] } " x".toList = "x".toList ∧
      clean { inlineMarks := ["\tx".toList] } "\tx".toList = [] := by
  decide

/-! ## All marks at once -/

/-- What stands before the first comment that any of the marks opens. The flag says
whether a comment may open at the first character. -/
def uncommented (marks : List Text) : Bool → Text → Text
  | _, [] => []
  | opens, c :: rest =>
    if opens && startsComment marks (c :: rest) then []
    else c :: uncommented marks (isBlank c) rest

/-- A mark stands at this place of a text and opens a comment there: a blank stands
directly before it, or nothing does and the flag allows it. -/
def OpensAt (marks : List Text) (opens : Bool) (text : Text) (place : Nat) : Prop :=
  (∃ mark ∈ marks, mark ≠ [] ∧ mark <+: text.drop place) ∧
    (if place = 0 then opens else text[place - 1]?.any isBlank) = true

instance {place : Nat} : Decidable (OpensAt marks opens text place) :=
  inferInstanceAs (Decidable (_ ∧ _))

theorem startsComment_eq_true_iff :
    startsComment marks line = true ↔ ∃ mark ∈ marks, mark ≠ [] ∧ mark <+: line := by
  rw [← Bool.not_eq_false, startsComment_eq_false_iff]
  push Not
  rfl

theorem opensAt_zero :
    OpensAt marks opens text 0 ↔ (opens && startsComment marks text) = true := by
  rw [OpensAt, if_pos rfl, List.drop_zero, Bool.and_eq_true, startsComment_eq_true_iff, and_comm]

theorem opensAt_succ {c : Char} {place : Nat} :
    OpensAt marks opens (c :: text) (place + 1) ↔ OpensAt marks (isBlank c) text place := by
  cases place with
  | zero => simp [OpensAt]
  | succ n => simp [OpensAt]

theorem OpensAt.lt_length {place : Nat} (h : OpensAt marks opens text place) :
    place < text.length := by
  obtain ⟨⟨mark, -, hne, hpre⟩, -⟩ := h
  refine Nat.lt_of_not_le fun hle => hne ?_
  rw [List.drop_eq_nil_of_le hle] at hpre
  exact List.prefix_nil.1 hpre

theorem uncommented_eq_take {place : Nat}
    (h : IsLeast {place | OpensAt marks opens text place} place) :
    uncommented marks opens text = text.take place := by
  induction text generalizing opens place with
  | nil => simp [uncommented]
  | cons c rest ih =>
      have hplace : OpensAt marks opens (c :: rest) place := h.1
      have hleast : ∀ q, OpensAt marks opens (c :: rest) q → place ≤ q := fun q hq => h.2 hq
      rw [uncommented]
      split
      · next hopens =>
          have hzero : place = 0 := Nat.le_zero.1 (hleast 0 (opensAt_zero.2 hopens))
          rw [hzero, List.take_zero]
      · next hopens =>
          cases place with
          | zero => exact absurd (opensAt_zero.1 hplace) hopens
          | succ n =>
              have hrest : IsLeast {place | OpensAt marks (isBlank c) rest place} n := by
                refine ⟨opensAt_succ.1 hplace, fun m hm => ?_⟩
                exact Nat.le_of_succ_le_succ (hleast (m + 1) (opensAt_succ.2 hm))
              rw [List.take_succ_cons, ih hrest]

theorem uncommented_eq_self (h : ∀ place, ¬OpensAt marks opens text place) :
    uncommented marks opens text = text := by
  induction text generalizing opens with
  | nil => rfl
  | cons c rest ih =>
      rw [uncommented, if_neg (mt opensAt_zero.2 (h 0)),
        ih fun place hplace => h (place + 1) (opensAt_succ.2 hplace)]

theorem uncommented_isPrefix (marks : List Text) (opens : Bool) (text : Text) :
    uncommented marks opens text <+: text := by
  induction text generalizing opens with
  | nil => exact List.prefix_rfl
  | cons c rest ih =>
      rw [uncommented]
      split
      · exact List.nil_prefix
      · exact List.cons_prefix_cons.2 ⟨rfl, ih _⟩

/-- Only which marks there are counts. -/
theorem startsComment_congr {other : List Text} (h : ∀ mark, mark ∈ other ↔ mark ∈ marks)
    (line : Text) : startsComment other line = startsComment marks line := by
  rw [Bool.eq_iff_iff, startsComment_eq_true_iff, startsComment_eq_true_iff]
  simp only [h]

theorem uncommented_congr {other : List Text} (h : ∀ mark, mark ∈ other ↔ mark ∈ marks)
    (opens : Bool) (text : Text) : uncommented other opens text = uncommented marks opens text := by
  induction text generalizing opens with
  | nil => rfl
  | cons c rest ih => rw [uncommented, uncommented, startsComment_congr h, ih]

/-! ## Marks without blanks -/

section Unbroken

variable (hmarks : ∀ mark ∈ marks, ∀ b ∈ mark, isBlank b = false)

/-- No comment opens inside a mark that has no blank in it, nor directly behind it. -/
theorem beforeComment_eq (hne : mark ≠ []) (hmark : ∀ b ∈ mark, isBlank b = false)
    (hcovered : ∀ b ∈ text.take covered, isBlank b = false) (hopens : covered ≠ 0 → opens = false) :
    beforeComment mark covered opens text = uncommented [mark] opens text := by
  fun_induction beforeComment mark covered opens text with
  | case1 => rw [uncommented]
  | case2 covered opens c rest ih =>
      rw [List.take_succ_cons, List.forall_mem_cons] at hcovered
      rw [uncommented, hopens (Nat.succ_ne_zero _), Bool.false_and, if_neg Bool.false_ne_true,
        ih hcovered.2 fun _ => hcovered.1]
  | case3 c rest hpre =>
      rw [List.isPrefixOf_iff_prefix] at hpre
      have hstarts : startsComment [mark] (c :: rest) = true :=
        startsComment_eq_true_iff.2 ⟨mark, List.mem_singleton_self mark, hne, hpre⟩
      rw [uncommented, hstarts, Bool.true_and, if_pos rfl]
  | case4 opens c rest hpre hopen ih =>
      obtain ⟨m, tail, rfl⟩ := List.exists_cons_of_ne_nil hne
      rw [List.isPrefixOf_iff_prefix, List.cons_prefix_cons] at hpre
      obtain ⟨rfl, back, rfl⟩ := hpre
      obtain ⟨hm, htail⟩ := List.forall_mem_cons.1 hmark
      rw [Bool.not_eq_true] at hopen
      rw [uncommented, hopen, Bool.false_and, if_neg Bool.false_ne_true,
        ih (by simpa using htail) fun _ => hm]
  | case5 opens c rest hpre ih =>
      rw [List.isPrefixOf_iff_prefix] at hpre
      have hstarts : startsComment [mark] (c :: rest) = false := by
        rw [startsComment_eq_false_iff]
        intro other hother _
        rwa [List.mem_singleton.1 hother]
      rw [uncommented, hstarts, Bool.and_false, if_neg Bool.false_ne_true,
        ih (by simp) fun h => absurd rfl h]

theorem dropInline_eq (hmark : ∀ b ∈ mark, isBlank b = false) (line : Text) :
    dropInline line mark = uncommented [mark] true line := by
  rw [dropInline]
  split
  · next hempty =>
      rw [uncommented_eq_self]
      rintro place ⟨⟨other, hother, hne, -⟩, -⟩
      exact hne (List.mem_singleton.1 hother ▸ List.isEmpty_iff.1 hempty)
  · next hempty =>
      exact beforeComment_eq (mt List.isEmpty_iff.2 hempty) hmark (by simp) fun h => absurd rfl h

theorem isPrefix_uncommented (hfront : ∀ b ∈ front, isBlank b = false) (h : front <+: text) :
    front <+: uncommented marks false text := by
  induction front generalizing text with
  | nil => exact List.nil_prefix
  | cons c front ih =>
      obtain ⟨hc, hfront⟩ := List.forall_mem_cons.1 hfront
      obtain ⟨rest, rfl⟩ := h
      rw [List.cons_append, uncommented, Bool.false_and, if_neg Bool.false_ne_true, hc]
      exact List.cons_prefix_cons.2 ⟨rfl, ih hfront ⟨rest, rfl⟩⟩

include hmarks

/-- A comment cuts none of these marks in half, for there is a blank before it. -/
theorem startsComment_uncommented (others : List Text) (c : Char) (rest : Text) :
    startsComment marks (c :: uncommented others (isBlank c) rest) =
      startsComment marks (c :: rest) := by
  rw [Bool.eq_iff_iff, startsComment_eq_true_iff, startsComment_eq_true_iff]
  constructor
  · rintro ⟨mark, hmem, hne, hpre⟩
    exact ⟨mark, hmem, hne, hpre.trans (List.cons_prefix_cons.2 ⟨rfl, uncommented_isPrefix ..⟩)⟩
  · rintro ⟨mark, hmem, hne, hpre⟩
    obtain ⟨m, tail, rfl⟩ := List.exists_cons_of_ne_nil hne
    obtain ⟨rfl, htailpre⟩ := List.cons_prefix_cons.1 hpre
    obtain ⟨hm, htail⟩ := List.forall_mem_cons.1 (hmarks _ hmem)
    rw [hm]
    exact ⟨_, hmem, hne, List.cons_prefix_cons.2 ⟨rfl, isPrefix_uncommented htail htailpre⟩⟩

theorem uncommented_append (others : List Text) (opens : Bool) (text : Text) :
    uncommented marks opens (uncommented others opens text) =
      uncommented (others ++ marks) opens text := by
  induction text generalizing opens with
  | nil => rfl
  | cons c rest ih =>
      have hor : startsComment (others ++ marks) (c :: rest) =
          (startsComment others (c :: rest) || startsComment marks (c :: rest)) := by
        rw [Bool.eq_iff_iff, Bool.or_eq_true]
        simp only [startsComment_eq_true_iff, List.mem_append, or_and_right, exists_or]
      -- Once the others have left `c` where it is, a mark stands there after they have cut the
      -- rest just if it stood there before.
      cases hothers : opens && startsComment others (c :: rest) with
      | true =>
          rw [Bool.and_eq_true] at hothers
          rw [uncommented, uncommented, hor, hothers.1, hothers.2]
          rfl
      | false =>
          have hboth : (opens && startsComment (others ++ marks) (c :: rest)) =
              (opens && startsComment marks (c :: rest)) := by
            rw [hor, Bool.and_or_distrib_left, hothers, Bool.false_or]
          rw [uncommented, hothers, if_neg Bool.false_ne_true, uncommented,
            startsComment_uncommented hmarks, ih, uncommented, hboth]

theorem foldl_dropInline_eq (line : Text) :
    marks.foldl dropInline line = uncommented marks true line := by
  induction marks generalizing line with
  | nil => exact (uncommented_eq_self (by simp [OpensAt])).symm
  | cons mark marks ih =>
      obtain ⟨hmark, hmarks⟩ := List.forall_mem_cons.1 hmarks
      rw [List.foldl_cons, ih hmarks, dropInline_eq hmark, uncommented_append hmarks]
      rfl

end Unbroken

/-- Where no inline mark has a blank in it, a line that is not a comment as a whole is cut
at the leftmost place at which one of the marks stands, at the very start or directly
behind a blank. In which order the marks are listed, and how often, does not count. -/
theorem clean_eq_trim_take (hmarks : ∀ mark ∈ d.inlineMarks, mark.any isBlank = false) :
    (∀ line, (∀ mark ∈ d.commentMarks, mark ≠ [] → ¬mark <+: line.trim) →
      (∀ place, IsLeast {place | OpensAt d.inlineMarks true line place} place →
        clean d line = Text.trim (line.take place)) ∧
      ((∀ place, ¬OpensAt d.inlineMarks true line place) → clean d line = line.trim)) ∧
    ∀ marks, (∀ mark, mark ∈ marks ↔ mark ∈ d.inlineMarks) →
      ∀ line, clean { d with inlineMarks := marks } line = clean d line := by
  have hunbroken : ∀ mark ∈ d.inlineMarks, ∀ b ∈ mark, isBlank b = false := fun mark hmem b hb =>
    Bool.eq_false_iff.2 (List.any_eq_false.1 (hmarks mark hmem) b hb)
  refine ⟨fun line hline => ?_, fun marks hsame line => ?_⟩
  · have hclean : clean d line = (uncommented d.inlineMarks true line).trim := by
      rw [clean, startsComment_eq_false_iff.2 hline, if_neg Bool.false_ne_true,
        foldl_dropInline_eq hunbroken]
    exact ⟨fun place hplace => by rw [hclean, uncommented_eq_take hplace],
      fun hnone => by rw [hclean, uncommented_eq_self hnone]⟩
  · have hunbroken' : ∀ mark ∈ marks, ∀ b ∈ mark, isBlank b = false := fun mark hmem =>
      hunbroken mark ((hsame mark).1 hmem)
    rw [clean, clean, foldl_dropInline_eq hunbroken', foldl_dropInline_eq hunbroken,
      uncommented_congr hsame]

/-- A dialect with several inline marks, one of them empty and one in another. -/
def annotated : Dialect := { inlineMarks := [";".toList, [], "/".toList, "//".toList] }

/-- Before the leftmost mark that opens a comment stand some that open none, and behind
it stands another that would. -/
theorem clean_eq_trim_take_annotated :
    (∀ mark ∈ annotated.inlineMarks, mark.any isBlank = false) ∧
      IsLeast {place | OpensAt annotated.inlineMarks true "k=a;b/c\t//d ;e".toList place} 8 ∧
      clean annotated "k=a;b/c\t//d ;e".toList = "k=a;b/c".toList ∧
      clean { annotated with inlineMarks := annotated.inlineMarks.reverse ++ annotated.inlineMarks }
        "k=a;b/c\t//d ;e".toList = "k=a;b/c".toList ∧
      (∀ place, ¬OpensAt annotated.inlineMarks true " a;b".toList place) ∧
      clean annotated " a;b".toList = "a;b".toList := by
  have hmarks : ∀ mark ∈ annotated.inlineMarks, mark.any isBlank = false := by decide
  obtain ⟨hcut, hsame⟩ := clean_eq_trim_take hmarks
  have hleast :
      IsLeast {place | OpensAt annotated.inlineMarks true "k=a;b/c\t//d ;e".toList place} 8 := by
    have hopens : OpensAt annotated.inlineMarks true "k=a;b/c\t//d ;e".toList 8 := by decide
    have hbefore : ∀ place < 8,
        ¬OpensAt annotated.inlineMarks true "k=a;b/c\t//d ;e".toList place := by decide
    exact ⟨hopens, fun place hplace => Nat.le_of_not_lt fun hlt => hbefore place hlt hplace⟩
  have hclean : clean annotated "k=a;b/c\t//d ;e".toList = "k=a;b/c".toList :=
    (hcut _ (by decide)).1 8 hleast
  have hmem : ∀ mark, mark ∈ annotated.inlineMarks.reverse ++ annotated.inlineMarks ↔
      mark ∈ annotated.inlineMarks := by simp
  have hnone : ∀ place, ¬OpensAt annotated.inlineMarks true " a;b".toList place := by
    have hwithin : ∀ place < " a;b".toList.length,
        ¬OpensAt annotated.inlineMarks true " a;b".toList place := by decide
    exact fun place hopens => hwithin place hopens.lt_length hopens
  exact ⟨hmarks, hleast, hclean, (hsame _ hmem _).trans hclean, hnone, (hcut _ (by decide)).2 hnone⟩

/-- With a blank in a mark the order counts: one mark can cut the other in half. -/
example :
    clean { inlineMarks := ["; #".toList, "#".toList] } "x ; # y".toList = "x".toList ∧
      clean { inlineMarks := ["#".toList, "; #".toList] } "x ; # y".toList = "x ;".toList := by
  decide

end Ini.Line
