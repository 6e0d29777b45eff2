import Ini.Shape.Read
import Mathlib.Data.Nat.Digits.Defs
import Mathlib.Data.List.Induction

/-!
# Which texts are integers

There are two ways from a text to an integer. A program that asks a configuration for a
number reads it at the width it wants. A program that asks for a shape gets it read at 64
bits and then narrowed, so that a number too great for the type is told from a text that
is no number. Both take the same texts and agree on the number.

What a text denotes is said without reading it: `IntType.Denotes` is the decimal system
with a sign before it, and knows nothing of width. The two ways differ only in where the
range is asked for, and the range of a type of at most 64 bits lies within that of 64 bits
(`IntType.holds_wide`).
-/

namespace Ini

/-- The digits, one at least, denote a number in the decimal system. -/
structure DigitsOf (n : Nat) (digits : Text) : Prop where
  ne_nil : digits ≠ []
  all_isDigit : digits.all Char.isDigit = true
  value : Nat.ofDigits 10 (digits.reverse.map fun c => c.toNat - '0'.toNat) = n

theorem digitsValue_eq_ofDigits (digits : Text) :
    digitsValue digits = Nat.ofDigits 10 (digits.reverse.map fun c => c.toNat - '0'.toNat) := by
  induction digits using List.reverseRecOn with
  | nil => rfl
  | append_singleton digits c ih =>
      rw [digitsValue, List.foldl_append, ← digitsValue, ih, List.foldl_cons, List.foldl_nil,
        List.reverse_concat, List.map_cons, Nat.ofDigits_cons, Nat.add_comm]

theorem natural?_eq_some_iff {text : Text} {n : Nat} :
    natural? text = some n ↔ DigitsOf n text := by
  rw [natural?]
  constructor
  · intro h
    split at h
    · next hdigits =>
        rw [Bool.and_eq_true, Bool.not_eq_true', List.isEmpty_eq_false_iff] at hdigits
        refine ⟨hdigits.1, hdigits.2, ?_⟩
        rw [← digitsValue_eq_ofDigits]
        exact Option.some.inj h
    · cases h
  · intro h
    obtain ⟨hne, hdigits, hvalue⟩ := h
    rw [if_pos (by simp [hne, hdigits]), digitsValue_eq_ofDigits, hvalue]

namespace IntType

variable {t : IntType} {text : Text} {n : Int}

/-- The numeral denotes a number: digits alone or after a plus sign, or, where there are
negative numbers, after a minus sign. -/
inductive Denotes (t : IntType) : Text → Int → Prop
  | bare {digits : Text} {n : Nat} (h : DigitsOf n digits) : Denotes t digits n
  | plus {digits : Text} {n : Nat} (h : DigitsOf n digits) : Denotes t ('+' :: digits) n
  | minus {digits : Text} {n : Nat} (hsigned : t.signed = true) (h : DigitsOf n digits) :
      Denotes t ('-' :: digits) (-n)

theorem numeral?_eq_some_iff : t.numeral? text = some n ↔ t.Denotes text n := by
  constructor
  · intro h
    rw [numeral?.eq_def] at h
    split at h
    · obtain ⟨m, hm, rfl⟩ := Option.map_eq_some_iff.1 h
      exact .plus (natural?_eq_some_iff.1 hm)
    · split at h
      · next hsigned =>
          obtain ⟨m, hm, rfl⟩ := Option.map_eq_some_iff.1 h
          exact .minus hsigned (natural?_eq_some_iff.1 hm)
      · cases h
    · obtain ⟨m, hm, rfl⟩ := Option.map_eq_some_iff.1 h
      exact .bare (natural?_eq_some_iff.1 hm)
  · intro h
    cases h with
    | @bare digits m hdigits =>
        rw [numeral?.eq_def]
        split
        -- A sign is no digit.
        · exact absurd hdigits.all_isDigit (by simp)
        · exact absurd hdigits.all_isDigit (by simp)
        · rw [natural?_eq_some_iff.2 hdigits]
          rfl
    | plus hdigits =>
        rw [numeral?, natural?_eq_some_iff.2 hdigits]
        rfl
    | minus hsigned hdigits =>
        rw [numeral?, if_pos hsigned, natural?_eq_some_iff.2 hdigits]
        rfl

theorem Denotes.unique {m : Int} (hn : t.Denotes text n) (hm : t.Denotes text m) : n = m := by
  rw [← numeral?_eq_some_iff] at hn hm
  exact Option.some.inj (hn.symm.trans hm)

theorem holds_iff : t.holds n = true ↔ t.least ≤ n ∧ n ≤ t.greatest := by
  rw [holds, Bool.and_eq_true, decide_eq_true_iff, decide_eq_true_iff]

example :
    (⟨true, 8⟩ : IntType).least = -128 ∧ (⟨true, 8⟩ : IntType).greatest = 127 ∧
      (⟨false, 64⟩ : IntType).least = 0 ∧
      (⟨false, 64⟩ : IntType).greatest = 18446744073709551615 := by
  decide

theorem read?_eq_some_iff : t.read? text = some n ↔ t.Denotes text n ∧ t.holds n = true := by
  rw [read?, Option.filter_eq_some_iff, numeral?_eq_some_iff]

/-- The type of 64 bits with the same sign. -/
def wide (t : IntType) : IntType := { t with bits := 64 }

/-- Numerals know no width. -/
theorem denotes_wide : t.wide.Denotes text n ↔ t.Denotes text n := by
  constructor
  · intro h
    cases h with
    | bare h => exact .bare h
    | plus h => exact .plus h
    | minus hsigned h => exact .minus hsigned h
  · intro h
    cases h with
    | bare h => exact .bare h
    | plus h => exact .plus h
    | minus hsigned h => exact .minus hsigned h

theorem least_wide_le (hbits : t.bits ≤ 64) : t.wide.least ≤ t.least := by
  have hle : (2 : Int) ^ (t.bits - 1) ≤ 2 ^ 63 :=
    pow_le_pow_right₀ (by decide) (Nat.sub_le_sub_right hbits 1)
  cases hsigned : t.signed with
  | true =>
      rw [least, least, if_pos hsigned, if_pos (show t.wide.signed = true from hsigned)]
      exact Int.neg_le_neg hle
  | false =>
      rw [least, least, if_neg (by simp [wide, hsigned]), if_neg (by simp [hsigned])]

theorem greatest_le_wide (hbits : t.bits ≤ 64) : t.greatest ≤ t.wide.greatest := by
  cases hsigned : t.signed with
  | true =>
      have hle : (2 : Int) ^ (t.bits - 1) ≤ 2 ^ 63 :=
        pow_le_pow_right₀ (by decide) (Nat.sub_le_sub_right hbits 1)
      rw [greatest, greatest, if_pos hsigned, if_pos (show t.wide.signed = true from hsigned)]
      exact Int.sub_le_sub_right hle 1
  | false =>
      have hle : (2 : Int) ^ t.bits ≤ 2 ^ 64 := pow_le_pow_right₀ (by decide) hbits
      rw [greatest, greatest, if_neg (by simp [hsigned]), if_neg (by simp [wide, hsigned])]
      exact Int.sub_le_sub_right hle 1

/-- What a type of at most 64 bits holds, 64 bits hold. -/
theorem holds_wide (hbits : t.bits ≤ 64) (h : t.holds n = true) : t.wide.holds n = true := by
  rw [holds_iff] at h ⊢
  exact ⟨(least_wide_le hbits).trans h.1, h.2.trans (greatest_le_wide hbits)⟩

end IntType

namespace Text

variable {t : IntType} {text : Text} {n : Int} {fault : Fault}

theorem toInteger_eq_ok_iff :
    text.toInteger t = .ok n ↔ t.Denotes text.trim n ∧ t.holds n = true := by
  rw [← IntType.read?_eq_some_iff, toInteger]
  cases t.read? text.trim with
  | none => simp [orNotA]
  | some m => simp [orNotA]

theorem toInteger_eq_error_iff :
    text.toInteger t = .error fault ↔
      fault = .notA .integer text ∧ ∀ n, ¬(t.Denotes text.trim n ∧ t.holds n = true) := by
  simp only [← IntType.read?_eq_some_iff]
  rw [toInteger]
  cases t.read? text.trim with
  | none => simp [orNotA, eq_comm]
  | some m => simp [orNotA]

end Text

namespace IntType

variable {t : IntType} {text : Text} {n : Int} {fault : Fault}

theorem read_of_error (h : text.toInteger t.wide = .error fault) : t.read text = .error fault := by
  rw [wide] at h
  rw [read, h]
  rfl

theorem read_of_ok (h : text.toInteger t.wide = .ok n) :
    t.read text = if t.holds n then .ok n else .error (.shape (.outOfRange n t.name)) := by
  rw [wide] at h
  rw [read, h]
  rfl

theorem read_eq_ok_iff (hbits : t.bits ≤ 64) :
    t.read text = .ok n ↔ t.Denotes text.trim n ∧ t.holds n = true := by
  cases hwide : text.toInteger t.wide with
  | error fault =>
      obtain ⟨-, hnone⟩ := Text.toInteger_eq_error_iff.1 hwide
      rw [read_of_error hwide]
      refine iff_of_false (by simp) fun h => ?_
      exact hnone n ⟨denotes_wide.2 h.1, holds_wide hbits h.2⟩
  | ok m =>
      have hm : t.Denotes text.trim m := denotes_wide.1 (Text.toInteger_eq_ok_iff.1 hwide).1
      rw [read_of_ok hwide]
      constructor
      · intro h
        split at h
        · next hholds =>
            cases h
            exact ⟨hm, hholds⟩
        · cases h
      · rintro ⟨hn, hholds⟩
        rw [hm.unique hn, if_pos hholds]

theorem read_eq_error_iff :
    t.read text = .error fault ↔
      (fault = .notA .integer text ∧ ∀ n, ¬(t.Denotes text.trim n ∧ t.wide.holds n = true)) ∨
        ∃ n, fault = .shape (.outOfRange n t.name) ∧ t.Denotes text.trim n ∧
          t.wide.holds n = true ∧ ¬t.holds n = true := by
  cases hwide : text.toInteger t.wide with
  | error cause =>
      obtain ⟨rfl, hnone⟩ := Text.toInteger_eq_error_iff.1 hwide
      simp only [denotes_wide] at hnone
      rw [read_of_error hwide]
      constructor
      · rintro ⟨⟩
        exact .inl ⟨rfl, hnone⟩
      · rintro (⟨rfl, -⟩ | ⟨n, -, hn, hwithin, -⟩)
        · rfl
        · exact absurd ⟨hn, hwithin⟩ (hnone n)
  | ok m =>
      obtain ⟨hm, hwithin⟩ := Text.toInteger_eq_ok_iff.1 hwide
      rw [denotes_wide] at hm
      rw [read_of_ok hwide]
      constructor
      · intro h
        split at h
        · cases h
        · next hholds =>
            cases h
            exact .inr ⟨m, rfl, hm, hwithin, hholds⟩
      · rintro (⟨-, hnone⟩ | ⟨n, rfl, hn, -, hholds⟩)
        · exact absurd ⟨hm, hwithin⟩ (hnone m)
        · rw [hm.unique hn, if_neg hholds]

/-- A value that is read by the shape of an integer. -/
theorem shape_read_eq (hbits : t.bits ≤ 64) (text : Text) :
    (Shape.scalar (.integer t)).read (some text) =
      (t.read text).map fun n => Value.atom (.integer n) := by
  rw [Shape.read, Scalar.read, if_pos hbits, Option.getD_some]
  cases t.read text <;> rfl

/-- A text converts to an integer of a type just where it is, blanks aside, a numeral for
a number in the range of the type, and then to that number. Read by shape it gives the same
number in the same cases. It is a fault of conversion if the text is no numeral for a
number of 64 bits, and a fault of shape if it is one that the type cannot hold. -/
theorem reads_iff_denotes (hbits : t.bits ≤ 64) (text : Text) :
    (∀ n, text.toInteger t = .ok n ↔ t.Denotes text.trim n ∧ t.least ≤ n ∧ n ≤ t.greatest) ∧
    (∀ fault, text.toInteger t = .error fault → fault = .notA .integer text) ∧
    (∀ value, (Shape.scalar (.integer t)).read (some text) = .ok value ↔
      ∃ n, value = .atom (.integer n) ∧ text.toInteger t = .ok n) ∧
    ∀ fault, (Shape.scalar (.integer t)).read (some text) = .error fault ↔
      (fault = .notA .integer text ∧
        ¬∃ n, t.Denotes text.trim n ∧ t.wide.least ≤ n ∧ n ≤ t.wide.greatest) ∨
      ∃ n, fault = .shape (.outOfRange n t.name) ∧ t.Denotes text.trim n ∧
        (t.wide.least ≤ n ∧ n ≤ t.wide.greatest) ∧ ¬(t.least ≤ n ∧ n ≤ t.greatest) := by
  refine ⟨fun n => ?_, fun fault h => (Text.toInteger_eq_error_iff.1 h).1, fun value => ?_,
    fun fault => ?_⟩
  · rw [Text.toInteger_eq_ok_iff, holds_iff]
  · rw [shape_read_eq hbits]
    simp only [Text.toInteger_eq_ok_iff, ← read_eq_ok_iff hbits]
    cases t.read text with
    | error cause => simp [Except.map]
    | ok m => simp [Except.map, eq_comm]
  · have herror : (t.read text).map (fun n => Value.atom (.integer n)) = .error fault ↔
        t.read text = .error fault := by
      cases t.read text <;> simp [Except.map]
    rw [shape_read_eq hbits, herror, read_eq_error_iff]
    simp only [← holds_iff, not_exists]

/-- The integers from 0 to 255. -/
def octet : IntType := ⟨false, 8⟩

/-- A plus sign, leading zeros and blanks are no harm; one more than the greatest number
of the type does not fit it, and a minus sign means nothing to it. -/
theorem reads_iff_denotes_octet :
    octet.bits ≤ 64 ∧
      Text.toInteger " +00255\t".toList octet = .ok 255 ∧
      (Shape.scalar (.integer octet)).read (some " +00255\t".toList) =
        .ok (.atom (.integer 255)) ∧
      (Shape.scalar (.integer octet)).read (some "256".toList) =
        .error (.shape (.outOfRange 256 octet.name)) ∧
      (Shape.scalar (.integer octet)).read (some "-1".toList) =
        .error (.notA .integer "-1".toList) := by
  have hbits : octet.bits ≤ 64 := by decide
  obtain ⟨hgreatest, -, hread, -⟩ := reads_iff_denotes hbits " +00255\t".toList
  have hoctet : Text.toInteger " +00255\t".toList octet = .ok 255 :=
    (hgreatest 255).2 ⟨.plus ⟨by decide, by decide, by decide⟩, by decide, by decide⟩
  obtain ⟨-, -, -, hnext⟩ := reads_iff_denotes hbits "256".toList
  obtain ⟨-, -, -, hnegative⟩ := reads_iff_denotes hbits "-1".toList
  have hnone : octet.numeral? (Text.trim "-1".toList) = none := by decide
  refine ⟨hbits, hoctet, (hread _).2 ⟨255, rfl, hoctet⟩, (hnext _).2 (.inr ⟨256, rfl, ?_⟩),
    (hnegative _).2 (.inl ⟨rfl, fun ⟨n, hn, _⟩ => ?_⟩)⟩
  · exact ⟨.bare ⟨by decide, by decide, by decide⟩, by decide, by decide⟩
  · rw [← numeral?_eq_some_iff, hnone] at hn
    cases hn

end IntType

end Ini
