/-!
# Text

Everything this library reads is text, and every rule it applies to text is a
rule about single characters met from left to right. So `Text` is the list of
its scalar values: recursion over it is structural, and a statement about a
line is proved by induction on the line. `String` appears only where text
enters or leaves.

Three rules are shared by all that follows. Keys are compared after `fold`,
which lowers the letters A to Z and nothing else. `lines` ends a line at a line
feed and drops one carriage return in front of it. `cut` splits a text at the
leftmost place where one of several marks stands.
-/

namespace Ini

/-- A text is the list of its characters. -/
abbrev Text := List Char

namespace Text

/-- The text as a string, for messages and output. -/
def str (text : Text) : String := String.ofList text

/-- Lowers the letters A to Z; every other character, accented capitals
included, stays as it is. -/
def fold (text : Text) : Text := text.map Char.toLower

@[simp] theorem fold_cons (c : Char) (text : Text) :
    fold (c :: text) = c.toLower :: fold text := rfl

theorem toLower_toLower (c : Char) : c.toLower.toLower = c.toLower := by
  delta Char.toLower
  split
  · next h =>
      rw [dif_neg]
      intro h2
      simp only [UInt32.le_iff_toNat_le] at h h2
      have e : (c.val + ('a'.val - 'A'.val)).toNat = c.val.toNat + 32 := by
        rw [UInt32.toNat_add]
        simp at h ⊢
        omega
      simp at h h2 e ⊢
      omega
  · rfl

@[simp] theorem fold_fold (text : Text) : fold (fold text) = fold text := by
  induction text with
  | nil => rfl
  | cons c rest ih => simp only [fold_cons, toLower_toLower, ih]

/-- Puts `c` in front of the first line. -/
def consLine (c : Char) : List Text → List Text
  | [] => [[c]]
  | line :: rest => (c :: line) :: rest

/-- The lines of a text. A line ends at a line feed, together with one carriage
return directly before it; after a final line feed no further line begins, and
a carriage return at the very end of the text belongs to its line. -/
def lines : Text → List Text
  | [] => []
  | '\n' :: rest => [] :: lines rest
  | '\r' :: '\n' :: rest => [] :: lines rest
  | c :: rest => consLine c (lines rest)

/-- The texts one after the other, with a line feed between any two. -/
def joinLines : List Text → Text
  | [] => []
  | [line] => line
  | line :: rest => line ++ '\n' :: joinLines rest

/-- What lies before and after a mark found in a text. -/
structure Cut where
  before : Text
  mark : Text
  after : Text
  deriving DecidableEq, Repr

/-- The first of the marks that the text begins with. An empty mark marks
nothing. -/
def markAtStart (marks : List Text) (text : Text) : Option Text :=
  marks.find? fun mark => !mark.isEmpty && mark.isPrefixOf text

/-- Splits a text at the leftmost place where a mark stands; where several
stand at that place, the one listed first is taken. -/
def cut (marks : List Text) : Text → Option Cut
  | [] => none
  | c :: rest =>
    match markAtStart marks (c :: rest) with
    | some mark => some ⟨[], mark, (c :: rest).drop mark.length⟩
    | none => (cut marks rest).map fun found => { found with before := c :: found.before }

/-- Nothing is lost by a cut. -/
theorem cut_append {marks : List Text} {text : Text} {found : Cut}
    (h : cut marks text = some found) :
    found.before ++ found.mark ++ found.after = text := by
  induction text generalizing found with
  | nil => simp [cut] at h
  | cons c rest ih =>
      rw [cut] at h
      split at h
      · next mark hmark =>
          obtain rfl := Option.some.inj h
          have hp := List.find?_some hmark
          simp only [Bool.and_eq_true, List.isPrefixOf_iff_prefix] at hp
          obtain ⟨tail, htail⟩ := hp.2
          rw [← htail]
          simp
      · obtain ⟨inner, hinner, rfl⟩ := Option.map_eq_some_iff.1 h
        simpa using ih hinner

theorem cut_mark_ne_nil {marks : List Text} {text : Text} {found : Cut}
    (h : cut marks text = some found) : found.mark ≠ [] := by
  induction text generalizing found with
  | nil => simp [cut] at h
  | cons c rest ih =>
      rw [cut] at h
      split at h
      · next mark hmark =>
          obtain rfl := Option.some.inj h
          have hp := List.find?_some hmark
          simp only [Bool.and_eq_true, Bool.not_eq_true', List.isEmpty_eq_false_iff] at hp
          exact hp.1
      · obtain ⟨inner, hinner, rfl⟩ := Option.map_eq_some_iff.1 h
        simpa using ih hinner

/-- What is left after a cut is shorter than the text, so a scan that goes on
from there comes to an end. -/
theorem length_cut_after_lt {marks : List Text} {text : Text} {found : Cut}
    (h : cut marks text = some found) : found.after.length < text.length := by
  have hlen := congrArg List.length (cut_append h)
  have hpos := List.length_pos_iff.2 (cut_mark_ne_nil h)
  simp only [List.length_append] at hlen
  omega

/-- The number of bytes the text takes in UTF-8. -/
def utf8Size : Text → Nat
  | [] => 0
  | c :: rest => c.utf8Size + utf8Size rest

end Text

end Ini
