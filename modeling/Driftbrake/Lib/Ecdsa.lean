import Mathlib.Algebra.Module.Basic
import Mathlib.Data.ZMod.Basic

/-!
# Signatures from which the key can be recovered

ECDSA over any group whose scalars are those of `ZMod n`: the equation of a signature (`Signed`) and
what a verifier that knows only the message recovers from one (`Recovers`). A signature recovers the
key it was made with, and no other (`Signed.recovers`, `Recovers.unique`); negating `s` and flipping
the parity changes nothing (`Recovers.neg`), so that every signature has a low form.
-/

namespace Driftbrake.Ecdsa

structure Signature (n : ℕ) where
  r : ZMod n
  s : ZMod n
deriving DecidableEq

structure RecoveryId where
  isYOdd : Bool
  isXReduced : Bool
deriving DecidableEq, Repr

namespace RecoveryId

/-- Bit 0 is the parity of `y`, bit 1 says that `x` was reduced. -/
def number (id : RecoveryId) : UInt8 :=
  (if id.isXReduced then 2 else 0) + if id.isYOdd then 1 else 0

/-- The point on the other side of the axis. -/
def flip (id : RecoveryId) : RecoveryId := { id with isYOdd := !id.isYOdd }

theorem number_le_one {id : RecoveryId} : id.number.toNat ≤ 1 ↔ id.isXReduced = false := by
  obtain ⟨odd, reduced⟩ := id
  cases reduced
  · cases odd <;> decide
  · cases odd <;> decide

theorem number_inj {id id' : RecoveryId} (h : id.number = id'.number) : id = id' := by
  obtain ⟨odd, reduced⟩ := id
  obtain ⟨odd', reduced'⟩ := id'
  cases odd <;> cases reduced <;> cases odd' <;> cases reduced' <;> first | rfl | cases h

end RecoveryId

/-- A group with a base point, and the points that a scalar and a recovery id stand for. -/
structure Curve (n : ℕ) (P : Type) [AddCommGroup P] where
  base : P
  lift : ZMod n → RecoveryId → Option P
  lift_flip : ∀ r id, lift r id.flip = (lift r id).map Neg.neg

section
variable {n : ℕ} {P : Type} [AddCommGroup P] [Module (ZMod n) P] {curve : Curve n P}
  {d z : ZMod n} {sig : Signature n} {id : RecoveryId} {Q Q' : P}

/-- The signature of `z` by the key `d`, with the nonce that the id tells the point of. -/
structure Signed (curve : Curve n P) (d z : ZMod n) (sig : Signature n) (id : RecoveryId) :
    Prop where
  isUnit_r : IsUnit sig.r
  equation : ∃ k, curve.lift sig.r id = some (k • curve.base) ∧ k * sig.s = z + sig.r * d

/-- The verification equation of `z`, at the point that the id tells. -/
structure Recovers (curve : Curve n P) (z : ZMod n) (sig : Signature n) (id : RecoveryId) (Q : P) :
    Prop where
  isUnit_r : IsUnit sig.r
  equation : ∃ R, curve.lift sig.r id = some R ∧ sig.s • R = z • curve.base + sig.r • Q

theorem Signed.recovers (H : Signed curve d z sig id) :
    Recovers curve z sig id (d • curve.base) := by
  obtain ⟨k, hlift, hk⟩ := H.equation
  refine ⟨H.isUnit_r, _, hlift, ?_⟩
  calc
    sig.s • k • curve.base = (k * sig.s) • curve.base := by rw [smul_smul, mul_comm]
    _ = z • curve.base + sig.r • d • curve.base := by rw [hk, add_smul, mul_smul]

theorem Recovers.unique (H : Recovers curve z sig id Q) (H' : Recovers curve z sig id Q') :
    Q = Q' := by
  obtain ⟨R, hlift, hR⟩ := H.equation
  obtain ⟨R', hlift', hR'⟩ := H'.equation
  obtain rfl : R = R' := Option.some.inj (hlift.symm.trans hlift')
  exact H.isUnit_r.smul_left_cancel.mp (add_left_cancel (hR.symm.trans hR'))

/-- The other signature of the same key. -/
def Signature.neg (sig : Signature n) : Signature n := { sig with s := -sig.s }

theorem Recovers.neg (H : Recovers curve z sig id Q) :
    Recovers curve z sig.neg id.flip Q := by
  obtain ⟨R, hlift, hR⟩ := H.equation
  refine ⟨H.isUnit_r, -R, ?_, ?_⟩
  · rw [curve.lift_flip]
    exact congrArg _ hlift
  · show (-sig.s) • (-R) = _
    rw [neg_smul_neg, hR]
    rfl

/-- `s` is not above half of the order. -/
def Signature.Low (sig : Signature n) : Prop := sig.s.val ≤ n / 2

instance : Decidable sig.Low := Nat.decLe _ _

theorem Signature.low_neg [NeZero n] (h : ¬sig.Low) : sig.neg.Low := by
  have hs : sig.s ≠ 0 := by
    intro hs
    rw [Low, hs, ZMod.val_zero] at h
    exact h (Nat.zero_le _)
  have hlt := sig.s.val_lt
  rw [Low] at h ⊢
  rw [neg, ZMod.neg_val, if_neg hs]
  omega

end

end Driftbrake.Ecdsa
