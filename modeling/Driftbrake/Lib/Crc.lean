import Mathlib.Data.BitVec
import Mathlib.Logic.Function.Basic

/-!
# Cyclic redundancy checks

The register of a reflected CRC over an arbitrary polynomial: `shift` moves it by one bit, `feed`
takes in one byte. A shift is linear and, when the top bit of the polynomial is set, injective, so
a difference between two registers never disappears. Bytes that fit into the register together act
on it like one word (`foldl_feed`), hence a burst of changes no longer than the register changes
the outcome, whatever surrounds it (`foldl_feed_burst_ne`).
-/

namespace Driftbrake

namespace Crc

variable {w : Nat} {poly : BitVec w}

/-- The register moved by one bit. -/
def shift (poly r : BitVec w) : BitVec w :=
  if r.getLsbD 0 then (r >>> 1) ^^^ poly else r >>> 1

/-- The register after `k` shifts. -/
def shifts (poly : BitVec w) (k : Nat) (r : BitVec w) : BitVec w := Nat.repeat (shift poly) k r

/-- The register after one byte. -/
def feed (poly r : BitVec w) (b : UInt8) : BitVec w :=
  shifts poly 8 (r ^^^ b.toBitVec.setWidth w)

/-- Some bytes as one word, the first in the lowest bits. -/
def word (w : Nat) : List UInt8 → BitVec w
  | [] => 0
  | b :: bs => b.toBitVec.setWidth w ^^^ (word w bs <<< 8)

/-! ## Shifts -/

theorem shift_xor (a b : BitVec w) : shift poly (a ^^^ b) = shift poly a ^^^ shift poly b := by
  have hpoly : ∀ x y : BitVec w, (x ^^^ poly) ^^^ (y ^^^ poly) = x ^^^ y := by
    intro x y
    rw [BitVec.xor_comm y poly, BitVec.xor_assoc, ← BitVec.xor_assoc poly, BitVec.xor_self,
      BitVec.zero_xor]
  rw [shift, BitVec.getLsbD_xor, BitVec.ushiftRight_xor_distrib]
  cases ha : a.getLsbD 0 <;> cases hb : b.getLsbD 0
  · simp [shift, ha, hb]
  · simp [shift, ha, hb, BitVec.xor_assoc]
  · simp [shift, ha, hb, BitVec.xor_assoc, BitVec.xor_comm _ poly]
  · simp [shift, ha, hb, hpoly]

/-- Nothing but the zero register is shifted to zero. -/
theorem eq_zero_of_shift_eq_zero (hpoly : poly.msb = true) {r : BitVec w} (h : shift poly r = 0) :
    r = 0 := by
  rw [shift] at h
  split at h
  · -- the shift leaves the top bit clear, and the polynomial sets it
    have hmsb := congrArg BitVec.msb h
    simp [hpoly, BitVec.msb_ushiftRight] at hmsb
  · rename_i hlow
    refine BitVec.eq_of_getLsbD_eq fun k hk => ?_
    cases k with
    | zero => simpa using hlow
    | succ k =>
      have hbit := congrArg (BitVec.getLsbD · k) h
      simpa [Nat.add_comm 1 k] using hbit

theorem shift_injective (hpoly : poly.msb = true) : Function.Injective (shift poly) := by
  intro a b h
  have hzero : shift poly (a ^^^ b) = 0 := by
    rw [shift_xor, h, BitVec.xor_self]
    rfl
  exact BitVec.xor_eq_zero_iff.mp (eq_zero_of_shift_eq_zero hpoly hzero)

theorem shifts_succ (k : Nat) (r : BitVec w) :
    shifts poly (k + 1) r = shift poly (shifts poly k r) := rfl

theorem shifts_succ' (k : Nat) (r : BitVec w) :
    shifts poly (k + 1) r = shifts poly k (shift poly r) := by
  induction k with
  | zero => rfl
  | succ k ih => rw [shifts_succ, ih, ← shifts_succ]

theorem shifts_add (k l : Nat) (r : BitVec w) :
    shifts poly (k + l) r = shifts poly k (shifts poly l r) := by
  induction k with
  | zero => rw [Nat.zero_add]; rfl
  | succ k ih => rw [Nat.succ_add, shifts_succ, ih, ← shifts_succ]

theorem shifts_xor (k : Nat) (a b : BitVec w) :
    shifts poly k (a ^^^ b) = shifts poly k a ^^^ shifts poly k b := by
  induction k with
  | zero => rfl
  | succ k ih => rw [shifts_succ, ih, shift_xor, shifts_succ, shifts_succ]

theorem shifts_injective (hpoly : poly.msb = true) (k : Nat) :
    Function.Injective (shifts poly k) := by
  induction k with
  | zero => exact fun _ _ h => h
  | succ k ih => exact fun _ _ h => ih (shift_injective hpoly h)

/-- Bits that do not reach the top come down unchanged. -/
theorem shifts_shiftLeft {k : Nat} {r : BitVec w} (h : ∀ n, w ≤ n + k → r.getLsbD n = false) :
    shifts poly k (r <<< k) = r := by
  induction k with
  | zero => simp [shifts, Nat.repeat]
  | succ k ih =>
    have hlow : (r <<< (k + 1)).getLsbD 0 = false := by simp
    have hstep : shift poly (r <<< (k + 1)) = r <<< k := by
      rw [shift, hlow, if_neg (by decide)]
      refine BitVec.eq_of_getLsbD_eq fun n hn => ?_
      rw [BitVec.getLsbD_ushiftRight, BitVec.getLsbD_shiftLeft, BitVec.getLsbD_shiftLeft,
        show 1 + n - (k + 1) = n - k by omega]
      by_cases hlast : n + 1 = w
      · rw [h (n - k) (by omega), Bool.and_false, Bool.and_false]
      · have hlt : (decide (1 + n < w) : Bool) = decide (n < w) := by
          rw [decide_eq_decide]
          omega
        have hle : (decide (1 + n < k + 1) : Bool) = decide (n < k) := by
          rw [decide_eq_decide]
          omega
        rw [hlt, hle]
    rw [shifts_succ', hstep]
    exact ih fun n hn => h n (by omega)

/-! ## Bytes -/

theorem getLsbD_word {bs : List UInt8} {n : Nat} (h : 8 * bs.length ≤ n) :
    (word w bs).getLsbD n = false := by
  induction bs generalizing n with
  | nil => exact BitVec.getLsbD_zero
  | cons b bs ih =>
    rw [List.length_cons] at h
    rw [word, BitVec.getLsbD_xor, BitVec.getLsbD_setWidth, BitVec.getLsbD_shiftLeft,
      ih (by omega), BitVec.getLsbD_of_ge b.toBitVec n (by omega)]
    simp

/-- Words of as many bytes that are equal are made of the same bytes. -/
theorem word_injective {bs cs : List UInt8} (hlen : bs.length = cs.length)
    (hw : 8 * bs.length ≤ w) (h : word w bs = word w cs) : bs = cs := by
  induction bs generalizing cs with
  | nil => exact (List.length_eq_zero_iff.mp hlen.symm).symm
  | cons b bs ih =>
    obtain ⟨c, cs, rfl⟩ := List.exists_cons_of_length_eq_add_one hlen.symm
    rw [List.length_cons] at hw
    have hbit : ∀ n, (word w (b :: bs)).getLsbD n = (word w (c :: cs)).getLsbD n := fun n => by
      rw [h]
    simp only [word, BitVec.getLsbD_xor, BitVec.getLsbD_setWidth, BitVec.getLsbD_shiftLeft] at hbit
    have hb : b = c := by
      refine UInt8.toBitVec_inj.mp (BitVec.eq_of_getLsbD_eq fun n hn => ?_)
      have hlt : n < w := by omega
      simpa [hn, hlt] using hbit n
    subst hb
    have hbs : word w bs = word w cs := by
      refine BitVec.eq_of_getLsbD_eq fun n hn => ?_
      by_cases hn' : n + 8 < w
      · have hge : ¬n + 8 < 8 := by omega
        simpa [hn', hge] using hbit (n + 8)
      · rw [List.length_cons, List.length_cons] at hlen
        rw [getLsbD_word (by omega), getLsbD_word (by omega)]
    rw [ih (Nat.succ_inj.mp hlen) (by omega) hbs]

/-- Bytes that fit into the register act on it like the word they make. -/
theorem foldl_feed {bs : List UInt8} (hw : 8 * bs.length ≤ w) (r : BitVec w) :
    bs.foldl (feed poly) r = shifts poly (8 * bs.length) (r ^^^ word w bs) := by
  induction bs generalizing r with
  | nil =>
    rw [word]
    simp [shifts, Nat.repeat]
  | cons b bs ih =>
    rw [List.length_cons] at hw ⊢
    have hword : shifts poly 8 (word w bs <<< 8) = word w bs :=
      shifts_shiftLeft fun n hn => getLsbD_word (by omega)
    rw [List.foldl_cons, ih (by omega), feed, Nat.mul_succ, shifts_add, word, ← BitVec.xor_assoc,
      shifts_xor 8 _ (word w bs <<< 8), hword]

theorem foldl_feed_injective (hpoly : poly.msb = true) (bs : List UInt8) :
    Function.Injective fun r => bs.foldl (feed poly) r := by
  induction bs with
  | nil => exact fun _ _ h => h
  | cons b bs ih =>
    intro r r' h
    exact (BitVec.xor_left_inj _).mp (shifts_injective hpoly 8 (ih h))

/-- **A burst that fits into the register is detected.** -/
theorem foldl_feed_burst_ne (hpoly : poly.msb = true) {old new : List UInt8}
    (hlen : new.length = old.length) (hw : 8 * old.length ≤ w) (hne : new ≠ old)
    (pre post : List UInt8) (r : BitVec w) :
    (pre ++ new ++ post).foldl (feed poly) r ≠ (pre ++ old ++ post).foldl (feed poly) r := by
  intro h
  simp only [List.foldl_append] at h
  have hburst := foldl_feed_injective hpoly post h
  rw [foldl_feed (hlen ▸ hw), foldl_feed hw, hlen] at hburst
  have hword := (BitVec.xor_right_inj _).mp (shifts_injective hpoly _ hburst)
  exact hne (word_injective hlen (hlen ▸ hw) hword)

end Crc

end Driftbrake
