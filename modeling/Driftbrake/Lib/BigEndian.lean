import Mathlib.Algebra.Order.Ring.Nat
import Mathlib.Data.List.Induction
import Mathlib.Tactic.Ring

/-!
# Big-endian byte strings

`toBe n v` is the `n` low-order bytes of `v`, most significant first, and `ofBe` the number such a
string stands for. They are inverse to each other on the `n`-byte strings and the numbers below
`256 ^ n`. `slice bs i j` is `bs[i..j]`.
-/

namespace Driftbrake

def toBe : Nat → Nat → List UInt8
  | 0, _ => []
  | n + 1, v => toBe n (v / 256) ++ [UInt8.ofNat v]

def ofBe (bs : List UInt8) : Nat := bs.foldl (fun acc b => acc * 256 + b.toNat) 0

def slice (bs : List UInt8) (i j : Nat) : List UInt8 := (bs.drop i).take (j - i)

@[simp] theorem length_toBe (n v : Nat) : (toBe n v).length = n := by
  induction n generalizing v with
  | zero => rfl
  | succ n ih => simp [toBe, ih]

@[simp] theorem ofBe_append_singleton (bs : List UInt8) (b : UInt8) :
    ofBe (bs ++ [b]) = ofBe bs * 256 + b.toNat := by
  simp [ofBe]

theorem ofBe_cons (b : UInt8) (bs : List UInt8) :
    ofBe (b :: bs) = b.toNat * 256 ^ bs.length + ofBe bs := by
  induction bs using List.reverseRecOn with
  | nil => simp [ofBe]
  | append_singleton bs c ih =>
    rw [← List.cons_append, ofBe_append_singleton, ih, ofBe_append_singleton, List.length_append,
      List.length_singleton, pow_succ]
    ring

theorem ofBe_toBe {n v : Nat} (h : v < 256 ^ n) : ofBe (toBe n v) = v := by
  induction n generalizing v with
  | zero => simp at h; subst h; rfl
  | succ n ih =>
    have hv : v / 256 < 256 ^ n := Nat.div_lt_of_lt_mul (by rw [pow_succ'] at h; exact h)
    rw [toBe, ofBe_append_singleton, ih hv, UInt8.toNat_ofNat']
    omega

theorem ofBe_lt (bs : List UInt8) : ofBe bs < 256 ^ bs.length := by
  induction bs using List.reverseRecOn with
  | nil => simp [ofBe]
  | append_singleton bs b ih =>
    have hb := b.toNat_lt
    rw [ofBe_append_singleton, List.length_append, List.length_singleton, pow_succ]
    omega

theorem toBe_ofBe {n : Nat} {bs : List UInt8} (h : bs.length = n) : toBe n (ofBe bs) = bs := by
  induction bs using List.reverseRecOn generalizing n with
  | nil => subst h; rfl
  | append_singleton bs b ih =>
    subst h
    have hb := b.toNat_lt
    have hdiv : (ofBe bs * 256 + b.toNat) / 256 = ofBe bs := by omega
    have hmod : UInt8.ofNat (ofBe bs * 256 + b.toNat) = b := by
      apply UInt8.toNat_inj.mp
      rw [UInt8.toNat_ofNat']
      omega
    rw [List.length_append, List.length_singleton, toBe, ofBe_append_singleton, hdiv, hmod, ih rfl]

/-! ## Reading a field out of a record -/

theorem slice_append {i j : Nat} {pre field post : List UInt8} (hi : pre.length = i)
    (hj : i + field.length = j) : slice (pre ++ field ++ post) i j = field := by
  subst hi hj
  simp [slice]

theorem slice_append_left {j : Nat} {field post : List UInt8} (hj : field.length = j) :
    slice (field ++ post) 0 j = field := by
  subst hj
  simp [slice]

theorem slice_append_right {i j : Nat} {pre field : List UInt8} (hi : pre.length = i)
    (hj : i + field.length = j) : slice (pre ++ field) i j = field := by
  subst hi hj
  simp [slice]

theorem slice_append_slice {bs : List UInt8} {i j k : Nat} (hij : i ≤ j) (hjk : j ≤ k) :
    slice bs i j ++ slice bs j k = slice bs i k := by
  have hi : i + (j - i) = j := by omega
  have hk : k - i = (j - i) + (k - j) := by omega
  have hdrop : bs.drop j = (bs.drop i).drop (j - i) := by rw [List.drop_drop, hi]
  rw [slice, slice, slice, hdrop, hk, List.take_add]

theorem slice_length (bs : List UInt8) : slice bs 0 bs.length = bs := by
  simp [slice]

theorem length_slice {bs : List UInt8} {i j : Nat} (hj : j ≤ bs.length) :
    (slice bs i j).length = j - i := by
  simp only [slice, List.length_take, List.length_drop]
  omega

end Driftbrake
