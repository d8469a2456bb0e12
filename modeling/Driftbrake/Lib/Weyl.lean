import Mathlib.Data.BitVec
import Mathlib.Data.List.Range
import Mathlib.Data.Fintype.EquivFin
import Mathlib.Logic.Function.Iterate

/-!
# Generators that walk through all words

A generator whose state advances by a constant with an inverse passes through all words of its width
before it comes back (`weyl_eq_iff`, `exists_weyl`), and so does its output if the mixing of the
state is injective. `mul_injective` and `xorShift_injective` are the usual steps of such a mixing.

`collect n draw` repeats a stateful draw; what it returns are the draws from the states that the
iterates of the step reach (`collect_run`).
-/

namespace Driftbrake

namespace Weyl

variable {w : Nat}

/-! ## Mixing -/

theorem mul_injective {c d : BitVec w} (h : c * d = 1#w) :
    Function.Injective fun x : BitVec w => x * c := by
  intro x y hxy
  have hd : x * c * d = y * c * d := congrArg (· * d) hxy
  rwa [BitVec.mul_assoc, BitVec.mul_assoc, h, BitVec.mul_one, BitVec.mul_one] at hd

/-- `x ^ (x >> k)`. -/
def xorShift (k : Nat) (x : BitVec w) : BitVec w := x ^^^ (x >>> k)

/-- Where two words agree behind the step, their difference is its own shift. -/
theorem xorShift_injective {k : Nat} (hk : 0 < k) :
    Function.Injective (xorShift k : BitVec w → BitVec w) := by
  intro x y hxy
  have hshift : x ^^^ y = (x ^^^ y) >>> k := by
    rw [BitVec.ushiftRight_xor_distrib]
    simp only [xorShift] at hxy
    calc x ^^^ y = x ^^^ (x >>> k) ^^^ ((x >>> k) ^^^ y) := by
          rw [BitVec.xor_assoc x, ← BitVec.xor_assoc (x >>> k), BitVec.xor_self, BitVec.zero_xor]
      _ = x >>> k ^^^ y >>> k := by
          rw [hxy, BitVec.xor_comm (x >>> k) y, BitVec.xor_assoc y, BitVec.xor_comm (y >>> k),
            BitVec.xor_assoc y, ← BitVec.xor_assoc y y, BitVec.xor_self, BitVec.zero_xor]
  have hzero : (x ^^^ y).toNat = 0 := by
    have hdiv := congrArg BitVec.toNat hshift
    rw [BitVec.toNat_ushiftRight, Nat.shiftRight_eq_div_pow] at hdiv
    by_contra hne
    have hlt := Nat.div_lt_self (Nat.pos_of_ne_zero hne) (Nat.one_lt_two_pow hk.ne')
    omega
  exact BitVec.xor_eq_zero_iff.mp (BitVec.eq_of_toNat_eq hzero)

/-- A mixing that keeps words apart leaves none out. -/
theorem surjective_of_injective {mix : BitVec w → BitVec w} (h : Function.Injective mix) :
    Function.Surjective mix :=
  have : Finite (BitVec w) := .of_injective _ BitVec.toFin_injective
  Finite.surjective_of_injective h

/-! ## The walk -/

section
variable {gamma gammaInv : BitVec w} (h : gamma * gammaInv = 1#w)
include h

theorem weyl_eq_iff {s : BitVec w} {i j : Nat} :
    s + .ofNat w i * gamma = s + .ofNat w j * gamma ↔ i % 2 ^ w = j % 2 ^ w := by
  rw [BitVec.add_right_inj, (mul_injective h).eq_iff, ← BitVec.toNat_inj, BitVec.toNat_ofNat,
    BitVec.toNat_ofNat]

/-- From every word the walk reaches every other one. -/
theorem exists_weyl (s t : BitVec w) : ∃ k < 2 ^ w, t = s + .ofNat w k * gamma := by
  refine ⟨((t - s) * gammaInv).toNat, BitVec.isLt _, ?_⟩
  rw [BitVec.ofNat_toNat, BitVec.setWidth_eq, BitVec.mul_assoc, BitVec.mul_comm gammaInv, h,
    BitVec.mul_one, BitVec.add_comm, BitVec.sub_add_cancel]

end

/-! ## Repeated draws -/

variable {S α : Type}

/-- `n` draws, one after the other. -/
def collect (n : Nat) (draw : StateM S α) : StateM S (List α) :=
  match n with
  | 0 => pure []
  | n + 1 => do
    let a ← draw
    let rest ← collect n draw
    pure (a :: rest)

theorem collect_run {draw : StateM S α} {value : S → α} {step : S → S}
    (h : ∀ s, draw.run s = (value s, step s)) (n : Nat) (s : S) :
    (collect n draw).run s = ((List.range n).map fun i => value (step^[i] s), step^[n] s) := by
  induction n generalizing s with
  | zero => rfl
  | succ n ih =>
    have hrest := ih (step s)
    have hcollect : (collect (n + 1) draw).run s =
        ((draw.run s).1 :: ((collect n draw).run (draw.run s).2).1,
          ((collect n draw).run (draw.run s).2).2) := rfl
    rw [hcollect, h, hrest, List.range_succ_eq_map, List.map_cons, List.map_map]
    rfl

end Weyl

end Driftbrake
