import Driftbrake.Core.Arith
import Driftbrake.Core.Types
import Mathlib.Data.Int.ModEq
import Mathlib.Data.List.Infix

/-!
# The integer operations of a build

A build either checks its integer operations and panics where the result does not fit, or lets the
result wrap. `A.machine overflowChecks` is the arithmetic of such a build, with the `f64` operations
of `A`, and `Arith.f64 overflowChecks` the one with those of binary64. A sum is exact in both kinds
of build when all its partial sums fit; otherwise it panics in a checked one (`sumI128_of_fits`,
`sumI128_eq_none`). For `u128` the total decides.
-/

namespace Driftbrake

namespace I128

/-- The integers that an `i128` can hold. -/
def InRange (n : Int) : Prop := -2 ^ 127 ≤ n ∧ n < 2 ^ 127

instance {n : Int} : Decidable (InRange n) := inferInstanceAs (Decidable (_ ∧ _))

theorem inRange_toInt (x : I128) : InRange x.toInt :=
  ⟨x.toBitVec.le_toInt, x.toBitVec.toInt_lt⟩

theorem toInt_ofInt {n : Int} (h : InRange n) : (ofInt n).toInt = n := by
  obtain ⟨hlo, hhi⟩ := h
  rw [toInt, ofInt, BitVec.toInt_ofInt, Int.bmod_eq_of_le]
  · omega
  · omega

/-- The value of an operation whose exact result is `n`; `none` is a panic. -/
def result (overflowChecks : Bool) (n : Int) : Option Int :=
  if InRange n then some n
  else if overflowChecks then none
  else some (ofInt n).toInt

variable {n : Int} {overflowChecks : Bool}

theorem result_of_inRange (h : InRange n) : result overflowChecks n = some n := if_pos h

theorem result_checked (h : ¬InRange n) : result true n = none := by
  rw [result, if_neg h, if_pos rfl]

/-- A checked operation returns nothing but the exact result. -/
theorem eq_of_result_checked {m : Int} (h : result true n = some m) : m = n := by
  rw [result] at h
  split at h
  · exact (Option.some.inj h).symm
  · cases h

theorem isSome_result_unchecked (n : Int) : (result false n).isSome := by
  rw [result]
  split <;> rfl

/-- An `i128` is determined by its residue. -/
theorem eq_of_modEq {m : Int} (hm : InRange m) (h : m ≡ n [ZMOD 2 ^ 128]) :
    m = (ofInt n).toInt := by
  obtain ⟨hlo, hhi⟩ := hm
  have hbmod : (ofInt n).toInt = n.bmod (2 ^ 128) := BitVec.toInt_ofInt ..
  have hemod : m % 2 ^ 128 = n % 2 ^ 128 := h
  rw [hbmod, ← Int.emod_bmod, show n % ((2 ^ 128 : Nat) : Int) = m % 2 ^ 128 from hemod.symm]
  rw [show (2 ^ 128 : Int) = ((2 ^ 128 : Nat) : Int) from rfl, Int.emod_bmod]
  exact (Int.bmod_eq_of_le (by omega) (by omega)).symm

/-- What an operation returns is an `i128` with the residue of the exact result. -/
theorem of_result_eq_some {m : Int} (h : result overflowChecks n = some m) :
    InRange m ∧ m ≡ n [ZMOD 2 ^ 128] := by
  rw [result] at h
  split at h
  next hn =>
    cases h
    exact ⟨hn, Int.ModEq.refl _⟩
  · split at h
    · cases h
    · cases h
      refine ⟨inRange_toInt _, ?_⟩
      rw [toInt, ofInt, BitVec.toInt_ofInt]
      exact Int.bmod_emod

end I128

namespace U128

def result (overflowChecks : Bool) (n : Nat) : Option Nat :=
  if n < 2 ^ 128 then some n
  else if overflowChecks then none
  else some (ofNat n).toNat

variable {n : Nat} {overflowChecks : Bool}

theorem result_of_lt (h : n < 2 ^ 128) : result overflowChecks n = some n := if_pos h

theorem result_checked (h : 2 ^ 128 ≤ n) : result true n = none := by
  rw [result, if_neg (Nat.not_lt.mpr h), if_pos rfl]

/-- What an operation returns is a `u128` with the residue of the exact result. -/
theorem of_result_eq_some {m : Nat} (h : result overflowChecks n = some m) :
    m = n % 2 ^ 128 := by
  rw [result] at h
  split at h
  next hn =>
    cases h
    exact (Nat.mod_eq_of_lt hn).symm
  · split at h
    · cases h
    · cases h
      exact BitVec.toNat_ofNat ..

end U128

namespace Arith

variable {F : Type}

/-- The arithmetic of a build, with the `f64` operations of `A`. -/
def machine (A : Arith F) (overflowChecks : Bool) : Arith F :=
  { A with
    subI128 := fun a b => I128.result overflowChecks (a - b)
    addI128 := fun a b => I128.result overflowChecks (a + b)
    mulU128 := fun a b => U128.result overflowChecks (a * b)
    addU128 := fun a b => U128.result overflowChecks (a + b) }

/-- The arithmetic of a build with its own `f64`: the conversions, the division and the additions
each round to the nearest value, and `Iterator::sum` adds from `-0.0` on. -/
def f64 (overflowChecks : Bool) : Arith Float where
  subI128 a b := I128.result overflowChecks (a - b)
  addI128 a b := I128.result overflowChecks (a + b)
  mulU128 a b := U128.result overflowChecks (a * b)
  addU128 a b := U128.result overflowChecks (a + b)
  ofI128 := Float.ofInt
  ofUsize := Float.ofNat
  div := Float.div
  sum xs := xs.foldl Float.add (-0.0)
  lt := Float.lt
  le := Float.le

/-- Every partial sum of the list is an `i128`. -/
def SumFits (xs : List Int) : Prop := ∀ ys ∈ xs.inits, I128.InRange ys.sum

instance {xs : List Int} : Decidable (SumFits xs) := inferInstanceAs (Decidable (∀ _ ∈ _, _))

theorem sumFits_append_singleton {xs : List Int} {x : Int} :
    SumFits (xs ++ [x]) ↔ SumFits xs ∧ I128.InRange (xs.sum + x) := by
  simp only [SumFits, List.mem_inits, List.prefix_concat_iff]
  constructor
  · intro h
    refine ⟨fun ys hys => h ys (.inr hys), ?_⟩
    simpa using h (xs ++ [x]) (.inl rfl)
  · rintro ⟨h, hx⟩ ys (rfl | hys)
    · simpa using hx
    · exact h ys hys

variable {A : Arith F} {overflowChecks : Bool}

theorem sumI128_append_singleton (B : Arith F) (xs : List Int) (x : Int) :
    B.sumI128 (xs ++ [x]) = (B.sumI128 xs).bind (B.addI128 · x) := by
  simp [sumI128]

/-- By induction from the end of the list, where the last addition is made. -/
theorem sumI128_of_fits {xs : List Int} (h : SumFits xs) :
    (A.machine overflowChecks).sumI128 xs = some xs.sum := by
  induction xs using List.reverseRecOn with
  | nil => rfl
  | append_singleton xs x ih =>
    obtain ⟨hxs, hx⟩ := sumFits_append_singleton.mp h
    rw [sumI128_append_singleton, ih hxs, Option.bind_some, List.sum_append, List.sum_singleton]
    exact I128.result_of_inRange hx

theorem modEq_of_sumI128 {xs : List Int} {n : Int}
    (h : (A.machine overflowChecks).sumI128 xs = some n) :
    I128.InRange n ∧ n ≡ xs.sum [ZMOD 2 ^ 128] := by
  induction xs using List.reverseRecOn generalizing n with
  | nil =>
    cases h
    exact ⟨by decide, Int.ModEq.refl _⟩
  | append_singleton xs x ih =>
    rw [sumI128_append_singleton, Option.bind_eq_some_iff] at h
    obtain ⟨m, hm, h⟩ := h
    obtain ⟨hrange, hmod⟩ := I128.of_result_eq_some h
    rw [List.sum_append, List.sum_singleton]
    exact ⟨hrange, hmod.trans ((ih hm).2.add_right _)⟩

theorem sumI128_eq_none {xs : List Int} (h : ¬SumFits xs) :
    (A.machine true).sumI128 xs = none := by
  induction xs using List.reverseRecOn with
  | nil => exact absurd (by decide) h
  | append_singleton xs x ih =>
    rw [sumI128_append_singleton]
    by_cases hxs : SumFits xs
    · rw [sumI128_of_fits hxs, Option.bind_some]
      exact I128.result_checked fun hx => h (sumFits_append_singleton.mpr ⟨hxs, hx⟩)
    · rw [ih hxs, Option.bind_none]

theorem sumU128_append_singleton (B : Arith F) (xs : List Nat) (x : Nat) :
    B.sumU128 (xs ++ [x]) = (B.sumU128 xs).bind (B.addU128 · x) := by
  simp [sumU128]

/-- The partial sums of naturals are no larger than the total. -/
theorem sumU128_of_lt {xs : List Nat} (h : xs.sum < 2 ^ 128) :
    (A.machine overflowChecks).sumU128 xs = some xs.sum := by
  induction xs using List.reverseRecOn with
  | nil => rfl
  | append_singleton xs x ih =>
    rw [List.sum_append, List.sum_singleton] at h ⊢
    rw [sumU128_append_singleton, ih (by omega), Option.bind_some]
    exact U128.result_of_lt h

/-- A sum has the residue of the exact one, whether the build checks its operations or not. -/
theorem mod_of_sumU128 {xs : List Nat} {n : Nat}
    (h : (A.machine overflowChecks).sumU128 xs = some n) : n = xs.sum % 2 ^ 128 := by
  induction xs using List.reverseRecOn generalizing n with
  | nil =>
    cases h
    rfl
  | append_singleton xs x ih =>
    rw [sumU128_append_singleton, Option.bind_eq_some_iff] at h
    obtain ⟨m, hm, h⟩ := h
    rw [U128.of_result_eq_some h, ih hm, List.sum_append, List.sum_singleton, Nat.mod_add_mod]

theorem sumU128_eq_none {xs : List Nat} (h : 2 ^ 128 ≤ xs.sum) :
    (A.machine true).sumU128 xs = none := by
  induction xs using List.reverseRecOn with
  | nil => exact absurd h (by decide)
  | append_singleton xs x ih =>
    rw [List.sum_append, List.sum_singleton] at h
    rw [sumU128_append_singleton]
    by_cases hxs : xs.sum < 2 ^ 128
    · rw [sumU128_of_lt hxs, Option.bind_some]
      exact U128.result_checked h
    · rw [ih (Nat.not_lt.mp hxs), Option.bind_none]

end Arith

end Driftbrake
