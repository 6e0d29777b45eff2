import Ini.Text.Blank
import Mathlib.Data.List.DropRight

/-!
# Trimming and folding

What the writer puts around a value the reader trims away again, so the facts
about `trim` that matter are about texts with something attached: blanks at an
end go unnoticed, a character that is not blank stops the trimming. Trimming
and folding commute, because folding touches letters only.
-/

namespace Ini.Text

variable {text pad rest : Text} {c : Char}

@[simp] theorem trim_nil : trim [] = [] := rfl

theorem trimStart_append_of_blank (hpad : ∀ c ∈ pad, isBlank c = true) (text : Text) :
    trimStart (pad ++ text) = text.trimStart :=
  List.dropWhile_append_of_pos hpad

theorem trimEnd_append_of_blank (hpad : ∀ c ∈ pad, isBlank c = true) (text : Text) :
    trimEnd (text ++ pad) = text.trimEnd := by
  unfold trimEnd
  rw [List.reverse_append, List.dropWhile_append_of_pos (by simpa using hpad)]

theorem trimStart_cons (hc : isBlank c = false) (text : Text) :
    trimStart (c :: text) = c :: text :=
  List.dropWhile_cons_of_neg (by simp [hc])

/-- What stands before a character that is not blank is not at the end. -/
theorem trimEnd_append_cons (hc : isBlank c = false) (text rest : Text) :
    trimEnd (text ++ c :: rest) = text ++ c :: rest.trimEnd := by
  unfold trimEnd
  have hne : ∀ front : Text, (front ++ [c]).isEmpty = false := by simp
  rw [List.reverse_append, List.reverse_cons, List.dropWhile_append, List.dropWhile_append]
  by_cases hrest : (rest.reverse.dropWhile isBlank).isEmpty = true
  · simp [hc, List.isEmpty_iff.1 hrest]
  · simp [hrest]

theorem exists_blank_append_trimEnd (text : Text) :
    ∃ pad, text = text.trimEnd ++ pad ∧ ∀ c ∈ pad, isBlank c = true := by
  refine ⟨text.rtakeWhile isBlank, ?_, fun c hc => List.mem_rtakeWhile_imp hc⟩
  exact (List.rdropWhile_append_rtakeWhile ..).symm

theorem trim_append_of_blank (hpad : ∀ c ∈ pad, isBlank c = true) (text : Text) :
    trim (text ++ pad) = text.trim := by
  unfold trim
  by_cases hblank : text.trimStart = []
  · rw [trimStart, List.dropWhile_append, ← trimStart, ← trimStart, hblank]
    have hpad' : pad.trimStart = [] := by
      simpa [trimStart] using trimStart_append_of_blank hpad []
    simp [hpad']
  · rw [trimStart, List.dropWhile_append, ← trimStart, if_neg (by simpa using hblank),
      trimEnd_append_of_blank hpad]

theorem trim_blank_append (hpad : ∀ c ∈ pad, isBlank c = true) (text : Text) :
    trim (pad ++ text) = text.trim := by
  rw [trim, trimStart_append_of_blank hpad, trim]

theorem trim_cons_blank (hc : isBlank c = true) (text : Text) :
    trim (c :: text) = text.trim := by
  have hpad : ∀ b ∈ [c], isBlank b = true := by simpa using hc
  exact trim_blank_append hpad text

theorem trim_trimEnd (text : Text) : text.trimEnd.trim = text.trim := by
  obtain ⟨pad, htext, hpad⟩ := exists_blank_append_trimEnd text
  conv => rhs; rw [htext, trim_append_of_blank hpad]

theorem not_isBlank_head?_trim (hc : c ∈ text.trim.head?) : isBlank c = false := by
  obtain ⟨tail, htail⟩ : ∃ tail, text.trim = c :: tail := List.head?_eq_some_iff.1 hc
  have hhead : text.trimStart.head? = some c := by
    obtain ⟨pad, htext, -⟩ := exists_blank_append_trimEnd text.trimStart
    rw [htext, ← trim, htail]
    rfl
  have h := List.head?_dropWhile_not isBlank text
  rw [← trimStart, hhead] at h
  simpa using h

theorem not_isBlank_getLast?_trim (hc : c ∈ text.trim.getLast?) : isBlank c = false := by
  rw [trim, trimEnd, List.getLast?_reverse, Option.mem_def] at hc
  simpa [hc] using List.head?_dropWhile_not isBlank text.trimStart.reverse

theorem trim_eq_self_iff :
    text.trim = text ↔
      (∀ c ∈ text.head?, isBlank c = false) ∧ ∀ c ∈ text.getLast?, isBlank c = false := by
  constructor
  · intro h
    rw [← h]
    exact ⟨fun c hc => not_isBlank_head?_trim hc, fun c hc => not_isBlank_getLast?_trim hc⟩
  · intro h
    obtain ⟨hhead, hlast⟩ := h
    have hstart : text.trimStart = text := by
      cases text with
      | nil => rfl
      | cons c rest => exact trimStart_cons (hhead c rfl) rest
    rw [trim, hstart]
    rcases List.eq_nil_or_concat text with rfl | ⟨front, c, rfl⟩
    · rfl
    · rw [List.concat_eq_append] at hlast ⊢
      exact trimEnd_append_cons (hlast c (by simp)) front []

@[simp] theorem trim_trim (text : Text) : text.trim.trim = text.trim :=
  trim_eq_self_iff.2
    ⟨fun _ hc => not_isBlank_head?_trim hc, fun _ hc => not_isBlank_getLast?_trim hc⟩

theorem trimEnd_of_trim_eq_self (h : text.trim = text) : text.trimEnd = text := by
  have hstart : text.trimStart = text := by
    cases text with
    | nil => rfl
    | cons c rest => exact trimStart_cons ((trim_eq_self_iff.1 h).1 c rfl) rest
  rwa [trim, hstart] at h

theorem trimEnd_append_of_trim_eq_self (h : text.trim = text) (hne : text ≠ []) (front : Text) :
    trimEnd (front ++ text) = front ++ text := by
  rcases List.eq_nil_or_concat text with rfl | ⟨init, c, rfl⟩
  · exact absurd rfl hne
  · rw [List.concat_eq_append] at h ⊢
    have hc : isBlank c = false := (trim_eq_self_iff.1 h).2 c (by simp)
    rw [← List.append_assoc]
    exact trimEnd_append_cons hc (front ++ init) []

/-- A trimmed text has a first character unless it is empty, and a line that
begins with it is not indented. -/
theorem exists_cons_of_trim_eq_self (h : text.trim = text) (hne : text ≠ []) :
    ∃ c rest, text = c :: rest ∧ isBlank c = false := by
  cases text with
  | nil => exact absurd rfl hne
  | cons c rest => exact ⟨c, rest, rfl, (trim_eq_self_iff.1 h).1 c rfl⟩

theorem head?_trim (text : Text) : text.trim.head? = text.find? fun c => !isBlank c := by
  induction text with
  | nil => rfl
  | cons c rest ih =>
      cases hc : isBlank c with
      | true => rw [trim_cons_blank hc, ih, List.find?_cons_of_neg (by simp [hc])]
      | false =>
          rw [List.find?_cons_of_pos (by simp [hc]), trim, trimStart_cons hc]
          exact congrArg List.head? (trimEnd_append_cons hc [] rest)

theorem trim_eq_nil_iff : text.trim = [] ↔ ∀ c ∈ text, isBlank c = true := by
  rw [← List.head?_eq_none_iff, head?_trim, List.find?_eq_none]
  simp

/-- A text is what the trimming leaves of it, between blanks. -/
theorem exists_eq_append_trim_append (text : Text) :
    ∃ front back, text = front ++ text.trim ++ back ∧ (∀ c ∈ front, isBlank c = true) ∧
      ∀ c ∈ back, isBlank c = true := by
  obtain ⟨back, htext, hback⟩ := exists_blank_append_trimEnd text.trimStart
  refine ⟨text.takeWhile isBlank, back, ?_, fun c hc => List.mem_takeWhile_imp hc, hback⟩
  rw [List.append_assoc, trim, ← htext]
  exact List.takeWhile_append_dropWhile.symm

theorem exists_blank_append_trim (text : Text) :
    ∃ pad, (∀ c ∈ pad, isBlank c = true) ∧ pad ++ text.trim <+: text := by
  obtain ⟨front, back, htext, hfront, -⟩ := exists_eq_append_trim_append text
  exact ⟨front, hfront, back, htext.symm⟩

/-- What is at the start of a text is at its start when both are trimmed. -/
theorem trim_isPrefix_trim {front : Text} (h : front <+: text) : front.trim <+: text.trim := by
  obtain ⟨back, rfl⟩ := h
  by_cases hblank : front.trimStart = []
  · rw [trim, hblank]
    exact List.nil_prefix
  · have hstart : trimStart (front ++ back) = front.trimStart ++ back := by
      rw [trimStart, List.dropWhile_append, ← trimStart, if_neg (by simpa using hblank)]
    rcases List.eq_nil_or_concat front.trim with hnil | ⟨init, c, htrim⟩
    · rw [hnil]
      exact List.nil_prefix
    · rw [List.concat_eq_append] at htrim
      have hlast : c ∈ front.trim.getLast? := by simp [htrim]
      have hc : isBlank c = false := not_isBlank_getLast?_trim hlast
      obtain ⟨pad, hpad, -⟩ := exists_blank_append_trimEnd front.trimStart
      rw [← trim, htrim] at hpad
      refine ⟨trimEnd (pad ++ back), ?_⟩
      rw [htrim, trim, hstart, hpad]
      simpa using (trimEnd_append_cons hc init (pad ++ back)).symm

theorem mem_of_mem_trim (hc : c ∈ text.trim) : c ∈ text := by
  have hstart : c ∈ text.trimStart := (List.rdropWhile_prefix isBlank text.trimStart).subset hc
  exact (List.dropWhile_suffix isBlank).subset hstart

/-! ## Folding -/

theorem toNat_toLower (c : Char) :
    c.toLower.toNat = if 65 ≤ c.toNat ∧ c.toNat ≤ 90 then c.toNat + 32 else c.toNat := by
  delta Char.toLower
  split
  · next h =>
      simp only [UInt32.le_iff_toNat_le] at h
      rw [if_pos (by simpa using h)]
      show (c.val + ('a'.val - 'A'.val)).toNat = c.val.toNat + 32
      rw [UInt32.toNat_add]
      simp at h ⊢
      omega
  · next h =>
      simp only [UInt32.le_iff_toNat_le] at h
      rw [if_neg (by simpa using h)]

@[simp] theorem isBlank_toLower (c : Char) : isBlank c.toLower = isBlank c := by
  have hblank : ∀ n : Nat, 65 ≤ n → n ≤ 122 →
      (blankRanges.any fun range => range.1 ≤ n && n ≤ range.2) = false := by
    intro n h1 h2
    simp [blankRanges]
    omega
  unfold isBlank
  rw [toNat_toLower]
  split
  · rw [hblank _ (by omega) (by omega), hblank _ (by omega) (by omega)]
  · rfl

theorem trim_fold (text : Text) : text.fold.trim = text.trim.fold := by
  simp [trim, trimStart, trimEnd, fold, ← List.map_reverse, List.dropWhile_map,
    Function.comp_def]

/-- Only lower-case letters are made by folding. -/
theorem toLower_eq_self_of_isLower_eq_false (h : c.toLower.isLower = false) : c.toLower = c := by
  have hlower : ¬(97 ≤ c.toLower.toNat ∧ c.toLower.toNat ≤ 122) := by
    delta Char.isLower at h
    simpa [UInt32.le_iff_toNat_le] using h
  have hnat : c.toLower.toNat = c.toNat := by
    rw [toNat_toLower] at hlower ⊢
    split at hlower
    · omega
    · next hupper => rw [if_neg hupper]
  exact Char.toNat_inj.1 hnat

theorem mem_of_mem_fold (hc : c ∈ text.fold) (h : c.isLower = false) : c ∈ text := by
  obtain ⟨b, hb, rfl⟩ := List.mem_map.1 hc
  rwa [toLower_eq_self_of_isLower_eq_false h]

end Ini.Text
