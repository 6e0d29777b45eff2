import Ini.Proofs.Depth

/-!
# Raising the limit

The limit on the depth of values shows in one place only: a value that lies too deep
is a fault, and that fault is not any other. A resolution that ended without it has
met no such value. Under a higher limit it takes the same course, asks for the same
keys in the same order and ends the same, be it with a text or with a fault.

What would lie too deep behind the first fault does not matter, for pieces are
settled from left to right and nothing behind a fault is looked at. So the two runs
are compared piece by piece, and for each piece only as far as the first run got.
-/

namespace Ini

/-- An outcome in which the limit had no part. -/
def Settled (outcome : Except Fault Text) : Prop :=
  ∀ name key limit, outcome ≠ .error (.tooDeep name key limit)

theorem settled_ok (text : Text) : Settled (.ok text) := fun _ _ _ h => by cases h

theorem Settled.of_bind {outcome : Except Fault Text} {f : Text → Except Fault Text}
    (h : Settled (outcome >>= f)) : Settled outcome := by
  cases outcome with
  | ok text => exact settled_ok text
  | error fault => exact h

namespace Piece

variable {name key : Text} {refer other : Text → Text → Except Fault Text}

theorem settle_of_settled
    (hrefer : ∀ home wanted, Settled (refer home wanted) → other home wanted = refer home wanted)
    {piece : Piece} (h : Settled (piece.settle name key refer)) :
    piece.settle name key other = piece.settle name key refer := by
  cases piece with
  | literal | flaw => rfl
  | reference target wanted => exact hrefer _ _ h

theorem settleAll_of_settled
    (hrefer : ∀ home wanted, Settled (refer home wanted) → other home wanted = refer home wanted)
    {pieces : List Piece} (h : Settled (settleAll name key refer pieces)) :
    settleAll name key other pieces = settleAll name key refer pieces := by
  induction pieces with
  | nil => rfl
  | cons piece rest ih =>
      rw [settleAll] at h
      have hpiece := settle_of_settled hrefer h.of_bind
      rw [settleAll, settleAll, hpiece]
      cases htext : piece.settle name key refer with
      | error fault => rfl
      | ok text =>
          rw [htext] at h
          rw [ih (Settled.of_bind h)]

end Piece

namespace Store

variable {s : Store} {g : Grammar} {limit limit' levels levels' : Nat} {name key raw : Text}

theorem resolveWithin_of_settled (hlevels : levels ≤ levels')
    (h : Settled (s.resolveWithin g limit levels name key raw)) :
    s.resolveWithin g limit' levels' name key raw =
      s.resolveWithin g limit levels name key raw := by
  induction levels generalizing levels' name key raw with
  | zero => exact absurd rfl (h name key limit)
  | succ levels ih =>
      obtain ⟨more, rfl⟩ : ∃ more, levels' = more + 1 := ⟨levels' - 1, by omega⟩
      rw [resolveWithin_succ] at h
      rw [resolveWithin_succ, resolveWithin_succ]
      refine Piece.settleAll_of_settled (fun home wanted hrefer => ?_) h
      -- A reference that went too deep the first time is left out here: its outcome was
      -- not settled, and the second run need not repeat it.
      refine referWithin_congr rfl fun value hlookup => ?_
      rw [referWithin_of_lookup hlookup] at hrefer
      exact ih (by omega) hrefer

/-- A value that under some limit comes to a text, or to a fault other than that of
its depth, comes to the same under every higher limit. -/
theorem resolveAt_of_settled {d : Dialect} (hlimit : limit ≤ limit') (s : Store) (depth : Nat)
    (name key raw : Text)
    (h : Settled (s.resolveAt { d with depthLimit := limit } depth name key raw)) :
    s.resolveAt { d with depthLimit := limit' } depth name key raw =
      s.resolveAt { d with depthLimit := limit } depth name key raw := by
  unfold resolveAt at h ⊢
  cases hg : d.interpolation.grammar? with
  | none => rfl
  | some g =>
      have hlevels : limit + 1 - depth ≤ limit' + 1 - depth := by omega
      simp only [hg] at h
      exact resolveWithin_of_settled hlevels h

/-- The fault stands before a reference that no limit is high enough for. -/
theorem resolveAt_of_settled_circular :
    2 ≤ 10 ∧
      Settled (circular.resolveAt { Dialect.standard with depthLimit := 2 } 2 "web".toList
        "x".toList "%(gone)s%(path)s".toList) ∧
      circular.resolveAt { Dialect.standard with depthLimit := 10 } 2 "web".toList "x".toList
        "%(gone)s%(path)s".toList = .error (.noOption "web".toList "gone".toList) ∧
      circular.resolveAt { Dialect.standard with depthLimit := 10 } 2 "web".toList "x".toList
        "%(base)s".toList = .ok "100%".toList := by
  have hgone : circular.resolveAt { Dialect.standard with depthLimit := 2 } 2 "web".toList
      "x".toList "%(gone)s%(path)s".toList =
        .error (.noOption "web".toList "gone".toList) := by decide +kernel
  have hbase : circular.resolveAt { Dialect.standard with depthLimit := 3 } 2 "web".toList
      "x".toList "%(base)s".toList = .ok "100%".toList := by decide +kernel
  have hsettled : Settled (circular.resolveAt { Dialect.standard with depthLimit := 2 } 2
      "web".toList "x".toList "%(gone)s%(path)s".toList) := by
    rw [hgone]
    exact fun _ _ _ h => by cases h
  refine ⟨by decide, hsettled, ?_, ?_⟩
  · rw [resolveAt_of_settled (by decide) _ _ _ _ _ hsettled, hgone]
  · rw [← hbase]
    refine resolveAt_of_settled (by decide) _ _ _ _ _ ?_
    rw [hbase]
    exact settled_ok _

end Store

end Ini
