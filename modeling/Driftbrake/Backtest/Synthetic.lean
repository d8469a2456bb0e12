import Driftbrake.Backtest.Sweep
import Driftbrake.Lib.Weyl

/-!
# Synthetic sequences

The generator of the `benchmark` crate: SplitMix64, and the sequences that are made of its stream.
Every word comes once in `2 ^ 64` draws and all seeds walk through one cycle, at different places
(`nextU64_full_period`); the sequences of a batch are consecutive slices of the stream
(`generateBatch_slices`).

The `f64` functions that turn words into noise are the parameter `NoiseArith`.
-/

namespace Driftbrake

/-- The `f64` operations of the generator. -/
structure NoiseArith (F : Type) where
  /-- `x as f64` for a `u64`. -/
  ofU64 : UInt64 → F
  /-- `x as f64` for an `i128`. -/
  ofI128 : I128 → F
  /-- `x.round() as i128`. -/
  roundI128 : F → I128
  one : F
  negTwo : F
  epsilon : F
  tau : F
  add : F → F → F
  mul : F → F → F
  div : F → F → F
  min : F → F → F
  ln : F → F
  sqrt : F → F
  cos : F → F

structure Rng where
  state : UInt64
deriving DecidableEq, Repr

namespace Rng

/-- The increment of the state, which also keeps the seed 0 away from the state 0. -/
def gamma : UInt64 := 0x9E3779B97F4A7C15

def new (seed : UInt64) : Rng := ⟨seed ^^^ gamma⟩

def nextU64 : StateM Rng UInt64 := do
  modify fun self => ⟨self.state + gamma⟩
  let z := (← get).state
  let z := (z ^^^ (z >>> 30)) * 0xBF58476D1CE4E5B9
  let z := (z ^^^ (z >>> 27)) * 0x94D049BB133111EB
  pure (z ^^^ (z >>> 31))

section
variable {F : Type} (N : NoiseArith F)

def nextF64 : StateM Rng F := do
  pure (N.mul (N.ofU64 ((← nextU64) >>> 11)) (N.div N.one (N.ofU64 ((1 : UInt64) <<< 53))))

/-- The Box-Muller transform of two uniform samples. -/
def nextGaussian (mean stdDev : F) : StateM Rng F := do
  let u1 := N.min (N.add (← nextF64 N) N.epsilon) N.one
  let u2 ← nextF64 N
  let z0 := N.mul (N.sqrt (N.mul N.negTwo (N.ln u1))) (N.cos (N.mul N.tau u2))
  pure (N.add mean (N.mul stdDev z0))

end

end Rng

structure RegimeParams (F : Type) where
  noiseStdDev : F
  driftMean : Option F

namespace RegimeParams

variable {F : Type}

def healthy (noiseStdDev : F) : RegimeParams F := ⟨noiseStdDev, none⟩

def drifted (noiseStdDev driftMean : F) : RegimeParams F := ⟨noiseStdDev, some driftMean⟩

def center (N : NoiseArith F) (self : RegimeParams F) : F := self.driftMean.getD N.one

end RegimeParams

section
variable {F : Type} (N : NoiseArith F) (regime : RegimeParams F) (predictedMagnitude : I128)

/-- One pair of a sequence, the body of the closure in `generate_sequence`. -/
def generatePair : StateM Rng Pair := do
  let ratio ← Rng.nextGaussian N (regime.center N) regime.noiseStdDev
  pure (⟨predictedMagnitude⟩, ⟨N.roundI128 (N.mul (N.ofI128 predictedMagnitude) ratio)⟩)

def generateSequence (length : Nat) : StateM Rng Sequence :=
  Weyl.collect length (generatePair N regime predictedMagnitude)

def generateBatch (count length : Nat) : StateM Rng (List Sequence) :=
  Weyl.collect count (generateSequence N regime predictedMagnitude length)

end

/-! ## The stream -/

namespace Rng

/-- The generator after `n` draws. -/
def after (rng : Rng) (n : Nat) : Rng := (fun rng => (nextU64.run rng).2)^[n] rng

/-- The draw number `n` of the stream. -/
def nth (rng : Rng) (n : Nat) : UInt64 := (nextU64.run (rng.after n)).1

variable {rng rng' : Rng} {i j n : Nat}

theorem nextU64_run : nextU64.run rng = (rng.nth 0, rng.after 1) := rfl

theorem after_after (m n : Nat) : (rng.after m).after n = rng.after (m + n) := by
  rw [after, after, after, ← Function.iterate_add_apply, Nat.add_comm]

theorem nth_after (m n : Nat) : (rng.after m).nth n = rng.nth (m + n) := by
  rw [nth, nth, after_after]

theorem state_succ (n : Nat) : (rng.after (n + 1)).state = (rng.after n).state + gamma := by
  rw [after, Function.iterate_succ_apply']
  rfl

theorem state_after (n : Nat) :
    (rng.after n).state.toBitVec = rng.state.toBitVec + .ofNat 64 n * gamma.toBitVec := by
  induction n with
  | zero => simp [after]
  | succ n ih =>
    rw [state_succ, UInt64.toBitVec_add, ih, BitVec.add_assoc, BitVec.ofNat_add, BitVec.add_mul,
      BitVec.one_mul]

/-- The mixing of a state. -/
def mix (z : BitVec 64) : BitVec 64 :=
  Weyl.xorShift 31 (Weyl.xorShift 27 (Weyl.xorShift 30 z * 0xBF58476D1CE4E5B9#64) *
    0x94D049BB133111EB#64)

theorem mix_injective : Function.Injective mix := by
  have h1 : 0xBF58476D1CE4E5B9#64 * 0x96DE1B173F119089#64 = 1#64 := by decide
  have h2 : 0x94D049BB133111EB#64 * 0x319642B2D24D8EC3#64 = 1#64 := by decide
  exact (Weyl.xorShift_injective (by decide)).comp ((Weyl.mul_injective h2).comp
    ((Weyl.xorShift_injective (by decide)).comp ((Weyl.mul_injective h1).comp
      (Weyl.xorShift_injective (by decide)))))

theorem nth_eq_mix (n : Nat) : (rng.nth n).toBitVec = mix (rng.after (n + 1)).state.toBitVec := by
  rw [state_succ]
  generalize hz : (rng.after n).state + gamma = z
  have hnth : rng.nth n =
    let z := (z ^^^ (z >>> 30)) * 0xBF58476D1CE4E5B9
    let z := (z ^^^ (z >>> 27)) * 0x94D049BB133111EB
    z ^^^ (z >>> 31) := by
    rw [← hz]
    rfl
  rw [hnth]
  rfl

theorem gamma_inverse : gamma.toBitVec * 0xF1DE83E19937733D#64 = 1#64 := by decide

theorem nth_eq_iff : rng.nth i = rng'.nth j ↔
    (rng.after (i + 1)).state.toBitVec = (rng'.after (j + 1)).state.toBitVec := by
  rw [← UInt64.toBitVec_inj, nth_eq_mix, nth_eq_mix, mix_injective.eq_iff]

/-- A stream repeats itself after `2 ^ 64` draws and not before. -/
theorem nth_inj : rng.nth i = rng.nth j ↔ i % 2 ^ 64 = j % 2 ^ 64 := by
  rw [nth_eq_iff, state_after, state_after, Weyl.weyl_eq_iff gamma_inverse]
  omega

/-- From every generator the walk reaches every state. -/
theorem exists_after (rng : Rng) (z : BitVec 64) :
    ∃ k < 2 ^ 64, (rng.after (k + 1)).state.toBitVec = z := by
  obtain ⟨k, hk, hz⟩ := Weyl.exists_weyl gamma_inverse (rng.after 1).state.toBitVec z
  refine ⟨k, hk, ?_⟩
  rw [Nat.add_comm, ← after_after, state_after, hz]

theorem exists_nth (rng : Rng) (word : UInt64) : ∃ k < 2 ^ 64, rng.nth k = word := by
  obtain ⟨z, hz⟩ := Weyl.surjective_of_injective mix_injective word.toBitVec
  obtain ⟨k, hk, hstate⟩ := exists_after rng z
  refine ⟨k, hk, ?_⟩
  rw [← UInt64.toBitVec_inj, nth_eq_mix, hstate, hz]

/-- **SplitMix64 passes through every word**: any `2 ^ 64` draws in a row bring every word exactly
once, two seeds differ in every draw, and they walk through the same cycle from different places. -/
theorem nextU64_full_period :
    (∀ (seed : UInt64) (n : Nat) (word : UInt64),
      ∃! k : Nat, k < 2 ^ 64 ∧ (new seed).nth (n + k) = word) ∧
    (∀ seed seed' : UInt64, seed ≠ seed' → ∀ n, (new seed).nth n ≠ (new seed').nth n) ∧
    ∀ seed seed' : UInt64, ∃ k < 2 ^ 64, ∀ n, (new seed').nth n = (new seed).nth (n + k) := by
  refine ⟨fun seed n word => ?_, fun seed seed' hne n => ?_, fun seed seed' => ?_⟩
  · obtain ⟨k, hk, hword⟩ := exists_nth ((new seed).after n) word
    rw [nth_after] at hword
    refine ⟨k, ⟨hk, hword⟩, ?_⟩
    rintro k' ⟨hk', hword'⟩
    have hmod := nth_inj.mp (hword'.trans hword.symm)
    omega
  · intro heq
    rw [nth_eq_iff, state_after, state_after, BitVec.add_left_inj, UInt64.toBitVec_inj] at heq
    exact hne ((UInt64.xor_left_inj gamma).mp heq)
  · obtain ⟨k, hk, hstate⟩ := exists_after (new seed) ((new seed').after 1).state.toBitVec
    refine ⟨k, hk, fun n => ?_⟩
    rw [nth_eq_iff, Nat.add_comm n 1, ← after_after, state_after, ← hstate, ← state_after,
      after_after]
    congr 3
    omega

end Rng

/-! ## What is made of the stream -/

section
variable {F : Type} (N : NoiseArith F)

namespace Rng

/-- The uniform sample of a word. -/
def uniform (word : UInt64) : F :=
  N.mul (N.ofU64 (word >>> 11)) (N.div N.one (N.ofU64 ((1 : UInt64) <<< 53)))

/-- The normal sample of two words. -/
def gaussian (mean stdDev : F) (word word' : UInt64) : F :=
  let u1 := N.min (N.add (uniform N word) N.epsilon) N.one
  let z0 := N.mul (N.sqrt (N.mul N.negTwo (N.ln u1))) (N.cos (N.mul N.tau (uniform N word')))
  N.add mean (N.mul stdDev z0)

theorem nextGaussian_run (mean stdDev : F) (rng : Rng) :
    (nextGaussian N mean stdDev).run rng =
      (gaussian N mean stdDev (rng.nth 0) (rng.nth 1), rng.after 2) := rfl

end Rng

variable (regime : RegimeParams F) (predictedMagnitude : I128)

/-- The pair of two words. -/
def pairOf (word word' : UInt64) : Pair :=
  (⟨predictedMagnitude⟩, ⟨N.roundI128 (N.mul (N.ofI128 predictedMagnitude)
    (Rng.gaussian N (regime.center N) regime.noiseStdDev word word'))⟩)

theorem generatePair_run (rng : Rng) :
    (generatePair N regime predictedMagnitude).run rng =
      (pairOf N regime predictedMagnitude (rng.nth 0) (rng.nth 1), rng.after 2) := rfl

theorem iterate_after (k n : Nat) (rng : Rng) :
    (fun rng : Rng => rng.after k)^[n] rng = rng.after (k * n) := by
  induction n with
  | zero => rw [Nat.mul_zero, Function.iterate_zero_apply, Rng.after, Function.iterate_zero_apply]
  | succ n ih => rw [Function.iterate_succ_apply', ih, Rng.after_after, Nat.mul_succ]

/-- The pair number `n` of a stream is made of the words `2 * n` and `2 * n + 1`. -/
def nthPair (rng : Rng) (n : Nat) : Pair :=
  pairOf N regime predictedMagnitude (rng.nth (2 * n)) (rng.nth (2 * n + 1))

theorem generateSequence_run (length : Nat) (rng : Rng) :
    (generateSequence N regime predictedMagnitude length).run rng =
      ((List.range length).map (nthPair N regime predictedMagnitude rng),
        rng.after (2 * length)) := by
  rw [generateSequence, Weyl.collect_run (generatePair_run N regime predictedMagnitude),
    iterate_after]
  refine Prod.ext (List.map_congr_left fun i _ => ?_) rfl
  rw [iterate_after, nthPair, Rng.nth_after, Rng.nth_after, Nat.add_zero]

theorem generateBatch_run (count length : Nat) (rng : Rng) :
    (generateBatch N regime predictedMagnitude count length).run rng =
      ((List.range count).map fun i => (List.range length).map fun j =>
        nthPair N regime predictedMagnitude rng (length * i + j),
        rng.after (2 * (length * count))) := by
  rw [generateBatch, Weyl.collect_run (generateSequence_run N regime predictedMagnitude length),
    iterate_after, Nat.mul_assoc]
  refine Prod.ext (List.map_congr_left fun i _ => List.map_congr_left fun j _ => ?_) rfl
  rw [iterate_after, nthPair, nthPair, Rng.nth_after, Rng.nth_after]
  congr 2 <;> ring

end

end Driftbrake
