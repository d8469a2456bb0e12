import Mathlib.Algebra.Order.Field.Rat

/-!
# The arithmetic of the guards

The source computes on `i128`, `u128` and `f64`. An `Arith F` says what these operations yield:
`none` where an integer operation panics, and an arbitrary `F` for `f64`, of which nothing is
assumed. `Arith.exact` is the reading over unbounded integers and exact rationals. A result about
every `Arith` holds of the machine arithmetic too, checked or wrapping, with any rounding.
-/

namespace Driftbrake

structure Arith (F : Type) where
  subI128 : Int → Int → Option Int
  addI128 : Int → Int → Option Int
  mulU128 : Nat → Nat → Option Nat
  addU128 : Nat → Nat → Option Nat
  /-- `x as f64` for an `i128`. -/
  ofI128 : Int → F
  /-- `n as f64` for a `usize`. -/
  ofUsize : Nat → F
  div : F → F → F
  sum : List F → F
  lt : F → F → Bool
  le : F → F → Bool

namespace Arith

variable {F : Type}

/-- `Iterator::sum` on `i128`. -/
def sumI128 (A : Arith F) (xs : List Int) : Option Int := xs.foldlM A.addI128 0

/-- `Iterator::sum` on `u128`. -/
def sumU128 (A : Arith F) (xs : List Nat) : Option Nat := xs.foldlM A.addU128 0

def exact : Arith ℚ where
  subI128 a b := some (a - b)
  addI128 a b := some (a + b)
  mulU128 a b := some (a * b)
  addU128 a b := some (a + b)
  ofI128 x := x
  ofUsize n := n
  div x y := x / y
  sum xs := xs.sum
  lt x y := decide (x < y)
  le x y := decide (x ≤ y)

section
variable (a b : Int) (m n : Nat) (x y : ℚ) (xs : List ℚ)

@[simp] theorem exact_subI128 : exact.subI128 a b = some (a - b) := rfl
@[simp] theorem exact_mulU128 : exact.mulU128 m n = some (m * n) := rfl
@[simp] theorem exact_ofI128 : exact.ofI128 a = a := rfl
@[simp] theorem exact_ofUsize : exact.ofUsize n = n := rfl
@[simp] theorem exact_div : exact.div x y = x / y := rfl
@[simp] theorem exact_sum : exact.sum xs = xs.sum := rfl
@[simp] theorem exact_lt : exact.lt x y = decide (x < y) := rfl
@[simp] theorem exact_le : exact.le x y = decide (x ≤ y) := rfl

end

private theorem foldlM_some_add {M : Type} [AddMonoid M] (xs : List M) (init : M) :
    xs.foldlM (fun a b => some (a + b)) init = some (init + xs.sum) := by
  induction xs generalizing init with
  | nil => simp
  | cons x xs ih => simp [ih, add_assoc]

@[simp] theorem exact_sumI128 (xs : List Int) : exact.sumI128 xs = some xs.sum := by
  rw [← zero_add xs.sum]
  exact foldlM_some_add xs 0

@[simp] theorem exact_sumU128 (xs : List Nat) : exact.sumU128 xs = some xs.sum := by
  rw [← zero_add xs.sum]
  exact foldlM_some_add xs 0

end Arith

/-! ## Lists of results -/

section
variable {α β : Type} {f : α → Option β} {l : List α}

theorem mapM_eq_some_map {g : α → β} (h : ∀ a ∈ l, f a = some (g a)) :
    l.mapM f = some (l.map g) := by
  induction l with
  | nil => rfl
  | cons a l ih =>
    rw [List.forall_mem_cons] at h
    simp [List.mapM_cons, h.1, ih h.2]

theorem mapM_eq_none {a : α} (ha : a ∈ l) (h : f a = none) : l.mapM f = none := by
  induction l with
  | nil => cases ha
  | cons b l ih =>
    rcases List.mem_cons.mp ha with rfl | ha
    · simp [List.mapM_cons, h]
    · simp [List.mapM_cons, ih ha]

/-- What each result has in common with an exact value, their sum has with the exact sum. -/
theorem sum_of_mapM {M : Type} [AddMonoid M] {R : M → M → Prop} {f : α → Option M} {g : α → M}
    {ys : List M} (hzero : R 0 0)
    (hadd : ∀ {a b c d}, R a b → R c d → R (a + c) (b + d))
    (h : ∀ a b, f a = some b → R b (g a)) (hys : l.mapM f = some ys) :
    R ys.sum (l.map g).sum := by
  induction l generalizing ys with
  | nil =>
    cases hys
    exact hzero
  | cons a l ih =>
    rw [List.mapM_cons, Option.bind_eq_bind, Option.bind_eq_some_iff] at hys
    obtain ⟨b, hb, hys⟩ := hys
    obtain ⟨bs, hbs, hys⟩ := Option.bind_eq_some_iff.mp hys
    cases hys
    rw [List.sum_cons, List.map_cons, List.sum_cons]
    exact hadd (h a b hb) (ih hbs)

theorem isSome_mapM_iff : (l.mapM f).isSome ↔ ∀ a ∈ l, (f a).isSome := by
  constructor
  · intro H a ha
    by_contra hnone
    rw [mapM_eq_none ha (Option.not_isSome_iff_eq_none.mp hnone)] at H
    cases H
  · intro H
    induction l with
    | nil => rfl
    | cons a l ih =>
      rw [List.forall_mem_cons] at H
      obtain ⟨b, hb⟩ := Option.isSome_iff_exists.mp H.1
      obtain ⟨bs, hbs⟩ := Option.isSome_iff_exists.mp (ih H.2)
      simp [List.mapM_cons, hb, hbs]

end

end Driftbrake
