import Driftbrake.Backtest.Tightening
import Driftbrake.Core.Machine
import Driftbrake.Reconcile.Runs
import Mathlib.Data.Int.Range

/-!
# Shortening the windows

A shorter fast window trips wherever the longer one does, in every arithmetic. A shorter slow window
is another mean, and whether some mean is bad depends on how the sums are rounded: no shorter slow
window is safe in every arithmetic (`never_misses_iff`). One that does not divide the longer window
is unsafe in every arithmetic that is exact on small whole numbers, as `f64` is up to the shipped
window (`Arith.exactTo_f64`): there are sequences, made by `sawtooth`, on which only the long window
is bad.
-/

namespace Driftbrake

open ReconcilePolicy

variable {F : Type} {A : Arith F} {p q : ReconcilePolicy F} {ops : List HistoryEntry}
  {fast fast' : FastGuardConfig F} {slow slow' : SlowGuardConfig F} {sequence : Sequence}

/-! ## The policies of the sweep -/

/-- A policy of the sweep: the two ratio guards and no other. -/
structure ReconcilePolicy.RatioGuards (p : ReconcilePolicy F) (fast : FastGuardConfig F)
    (slow : SlowGuardConfig F) : Prop where
  fast : p.fast = fast
  slow : p.slow = slow
  revertBurst : p.revertBurst = none
  revertGas : p.revertGas = none
  volumeWeighted : p.volumeWeighted = none
  drawdown : p.drawdown = none

theorem ReconcilePolicy.exists_new_of_lt (fast : FastGuardConfig F) (slow : SlowGuardConfig F)
    (debugAssertions : Bool) (hf : 0 < fast.window) (hs : 0 < slow.window)
    (ht : A.lt fast.threshold slow.threshold) :
    ∃ p, new A debugAssertions fast slow = some p ∧ p.RatioGuards fast slow := by
  simp only [new, hf, hs, and_self, dite_true, ht, Bool.not_true, Bool.and_false,
    Bool.false_eq_true, if_false, Option.some.injEq]
  exact ⟨_, rfl, rfl, rfl, rfl, rfl, rfl, rfl⟩

theorem ReconcilePolicy.exists_new (fast : FastGuardConfig ℚ) (slow : SlowGuardConfig ℚ)
    (debugAssertions : Bool) (hf : 0 < fast.window) (hs : 0 < slow.window)
    (ht : fast.threshold < slow.threshold) :
    ∃ p, new Arith.exact debugAssertions fast slow = some p ∧ p.RatioGuards fast slow :=
  exists_new_of_lt fast slow debugAssertions hf hs (decide_eq_true ht)

namespace ReconcilePolicy.RatioGuards

theorem guard_of_tripsOn (H : p.RatioGuards fast slow) {g : Guard} (h : p.TripsOn A ops g) :
    g = .fast ∨ g = .slow := by
  cases g with
  | revertBurst => obtain ⟨_, hc, _⟩ := h; cases hc.symm.trans H.revertBurst
  | revertGas => obtain ⟨_, hc, _⟩ := h; cases hc.symm.trans H.revertGas
  | fast => exact .inl rfl
  | drawdown => obtain ⟨_, hc, _⟩ := h; cases hc.symm.trans H.drawdown
  | volumeWeighted => obtain ⟨_, hc, _⟩ := h; cases hc.symm.trans H.volumeWeighted
  | slow => exact .inr rfl

theorem condition {p : ReconcilePolicy ℚ} {fast : FastGuardConfig ℚ} {slow : SlowGuardConfig ℚ}
    (H : p.RatioGuards fast slow) {g : Guard} (h : p.Condition ops g) : g = .fast ∨ g = .slow :=
  H.guard_of_tripsOn (tripsOn_exact_iff.mpr h)

/-- The ratio guards add no integers. -/
theorem not_panicsOn (H : p.RatioGuards fast slow) (g : Guard) : ¬p.PanicsOn A ops g := by
  cases g with
  | revertGas => rintro ⟨_, hc, _⟩; cases hc.symm.trans H.revertGas
  | drawdown => rintro ⟨_, hc, _⟩; cases hc.symm.trans H.drawdown
  | volumeWeighted => rintro ⟨_, hc, _⟩; cases hc.symm.trans H.volumeWeighted
  | revertBurst | fast | slow => exact id

theorem total (H : p.RatioGuards fast slow) : p.Total A :=
  fun _ => exists_evaluate H.not_panicsOn

theorem halts_iff (H : p.RatioGuards fast slow) : p.Halts A (.ofEntries ops) ↔
    p.TripsOn A ops .fast ∨ p.TripsOn A ops .slow := by
  rw [halts_iff_exists_tripsOn H.not_panicsOn]
  constructor
  · rintro ⟨g, hg⟩
    rcases H.guard_of_tripsOn hg with rfl | rfl
    · exact .inl hg
    · exact .inr hg
  · rintro (h | h)
    · exact ⟨_, h⟩
    · exact ⟨_, h⟩

/-- A shorter fast window halts on every history on which the longer one does. -/
theorem halts_of_shorter_fast (Hp : p.RatioGuards fast slow) (Hq : q.RatioGuards fast' slow)
    (ht : fast'.threshold = fast.threshold) (hf : fast'.window ≤ fast.window)
    (h : p.Halts A (.ofEntries ops)) : q.Halts A (.ofEntries ops) := by
  rw [Hp.halts_iff] at h
  rw [Hq.halts_iff]
  rcases h with ⟨hlen, hall⟩ | hslow
  · rw [Hp.fast] at hlen hall
    refine .inl ⟨?_, ?_⟩
    · rw [Hq.fast]
      exact hf.trans hlen
    · rw [Hq.fast, ht]
      exact fun pair hpair => hall pair (rtake_subset hf hpair)
  · simp only [TripsOn, Hp.slow] at hslow
    simp only [TripsOn, Hq.slow]
    exact .inr hslow

end ReconcilePolicy.RatioGuards

/-- `run_to_first_halt` finds nothing exactly in a run that is never halted. -/
theorem firstHaltIn_eq_none_iff {p : ReconcilePolicy ℚ} :
    firstHaltIn p sequence = none ↔ p.NeverHalts sequence.entries := by
  have hlen : sequence.entries.length = sequence.length := List.length_map ..
  rw [firstHaltIn, Option.map_eq_none_iff, List.find?_eq_none, NeverHalts, hlen]
  simp only [List.mem_range, halting_iff, ReconcilePolicy.halts_iff, evaluate_continue_iff,
    not_exists]

/-! ## Runs on one sequence -/

theorem firstHaltAt_isSome_iff : (firstHaltAt A p sequence).isSome ↔
    ∃ i < sequence.length, p.Halts A (.ofEntries (Sequence.entries (sequence.take (i + 1)))) := by
  simp only [firstHaltAt, Option.isSome_map, List.find?_isSome, List.mem_range, haltingAt_iff,
    Sequence.entries, List.map_take]

theorem firstHaltAt_isSome_of_halts (hne : sequence ≠ [])
    (h : p.Halts A (.ofEntries sequence.entries)) : (firstHaltAt A p sequence).isSome := by
  have hpos := List.length_pos_of_ne_nil hne
  refine firstHaltAt_isSome_iff.mpr ⟨sequence.length - 1, by omega, ?_⟩
  rwa [Nat.sub_add_cancel hpos, List.take_length]

theorem firstHaltAt_eq_none
    (h : ∀ n ≤ sequence.length, ¬p.Halts A (.ofEntries (Sequence.entries (sequence.take n)))) :
    firstHaltAt A p sequence = none := by
  rw [← Option.not_isSome_iff_eq_none, firstHaltAt_isSome_iff]
  rintro ⟨i, hi, hhalts⟩
  exact h (i + 1) hi hhalts

/-! ## The claim of the overview -/

/-- With windows `kf'` and `ks'` the sweep catches every sequence that it catches with windows `kf`
and `ks`, whatever the thresholds. -/
def NeverMisses (A : Arith F) (kf ks kf' ks' : Nat) : Prop :=
  ∀ debugAssertions (tf ts : F), A.lt tf ts → ∀ sequence i,
    firstHaltOf A debugAssertions ⟨tf, kf⟩ ⟨ts, ks⟩ sequence = some (some i) →
    ∃ i', firstHaltOf A debugAssertions ⟨tf, kf'⟩ ⟨ts, ks'⟩ sequence = some (some i')

/-- With windows `kf'` and `ks'` the sweep misses at most as many sequences of a batch. -/
def MissesNoMore (A : Arith F) (kf ks kf' ks' : Nat) : Prop :=
  ∀ debugAssertions (tf ts : F), A.lt tf ts → ∀ batch, ∃ n n',
    missed A debugAssertions ⟨tf, kf⟩ ⟨ts, ks⟩ batch = some n ∧
    missed A debugAssertions ⟨tf, kf'⟩ ⟨ts, ks'⟩ batch = some n' ∧ n' ≤ n

section
variable {kf ks kf' ks' : Nat}

theorem firstHaltAt_isSome_of_shorter_fast {tf ts : F} (Hp : p.RatioGuards ⟨tf, kf⟩ ⟨ts, ks⟩)
    (Hq : q.RatioGuards ⟨tf, kf'⟩ ⟨ts, ks⟩) (hf : kf' ≤ kf)
    (h : (firstHaltAt A p sequence).isSome) : (firstHaltAt A q sequence).isSome := by
  obtain ⟨i, hi, hhalts⟩ := firstHaltAt_isSome_iff.mp h
  exact firstHaltAt_isSome_iff.mpr ⟨i, hi, Hp.halts_of_shorter_fast Hq rfl hf hhalts⟩

theorem neverMisses_same_slow (A : Arith F) (hkf : 0 < kf') (hf : kf' ≤ kf) (hks : 0 < ks) :
    NeverMisses A kf ks kf' ks := by
  intro debugAssertions tf ts ht sequence i hi
  obtain ⟨p, hp, Hp⟩ := exists_new_of_lt ⟨tf, kf⟩ ⟨ts, ks⟩ debugAssertions (hkf.trans_le hf) hks ht
  obtain ⟨q, hq, Hq⟩ := exists_new_of_lt ⟨tf, kf'⟩ ⟨ts, ks⟩ debugAssertions hkf hks ht
  rw [firstHaltOf_of_total hp Hp.total, Option.some.injEq] at hi
  obtain ⟨i', hi'⟩ := Option.isSome_iff_exists.mp
    (firstHaltAt_isSome_of_shorter_fast Hp Hq hf (Option.isSome_of_eq_some hi))
  exact ⟨i', by rw [firstHaltOf_of_total hq Hq.total, hi']⟩

theorem missesNoMore_same_slow (A : Arith F) (hkf : 0 < kf') (hf : kf' ≤ kf) (hks : 0 < ks) :
    MissesNoMore A kf ks kf' ks := by
  intro debugAssertions tf ts ht batch
  obtain ⟨p, hp, Hp⟩ := exists_new_of_lt ⟨tf, kf⟩ ⟨ts, ks⟩ debugAssertions (hkf.trans_le hf) hks ht
  obtain ⟨q, hq, Hq⟩ := exists_new_of_lt ⟨tf, kf'⟩ ⟨ts, ks⟩ debugAssertions hkf hks ht
  refine ⟨_, _, missed_of_total hp Hp.total batch, missed_of_total hq Hq.total batch,
    Nat.sub_le_sub_left ?_ _⟩
  exact List.countP_mono_left fun s _ => firstHaltAt_isSome_of_shorter_fast Hp Hq hf

/-- Both fail where a sequence halts the longer windows at its end and the shorter ones nowhere. -/
theorem misses_of_halts {tf ts : F} (ht : A.lt tf ts) (hkf : 0 < kf') (hf : kf' ≤ kf)
    (hks : 0 < ks') (hs : ks' ≤ ks) (hne : sequence ≠ [])
    (hlong : ∀ p : ReconcilePolicy F, p.RatioGuards ⟨tf, kf⟩ ⟨ts, ks⟩ →
      p.Halts A (.ofEntries sequence.entries))
    (hshort : ∀ q : ReconcilePolicy F, q.RatioGuards ⟨tf, kf'⟩ ⟨ts, ks'⟩ →
      ∀ n ≤ sequence.length, ¬q.Halts A (.ofEntries (Sequence.entries (sequence.take n)))) :
    ¬NeverMisses A kf ks kf' ks' ∧ ¬MissesNoMore A kf ks kf' ks' := by
  obtain ⟨p, hp, Hp⟩ := exists_new_of_lt ⟨tf, kf⟩ ⟨ts, ks⟩ true (hkf.trans_le hf)
    (hks.trans_le hs) ht
  obtain ⟨q, hq, Hq⟩ := exists_new_of_lt ⟨tf, kf'⟩ ⟨ts, ks'⟩ true hkf hks ht
  have hsome := firstHaltAt_isSome_of_halts hne (hlong p Hp)
  have hnone := firstHaltAt_eq_none (hshort q Hq)
  constructor
  · intro H
    obtain ⟨i, hi⟩ := Option.isSome_iff_exists.mp hsome
    obtain ⟨i', hi'⟩ := H true tf ts ht sequence i (by rw [firstHaltOf_of_total hp Hp.total, hi])
    rw [firstHaltOf_of_total hq Hq.total, hnone] at hi'
    cases hi'
  · intro H
    obtain ⟨n, n', hn, hn', hle⟩ := H true tf ts ht [sequence]
    rw [missed_of_total hp Hp.total, Option.some.injEq] at hn
    rw [missed_of_total hq Hq.total, Option.some.injEq] at hn'
    simp only [List.countP_singleton, hsome, hnone, List.length_singleton, if_true,
      Option.isSome_none, Bool.false_eq_true, if_false] at hn hn'
    omega

end

/-! ## Trades with a predicted profit of one -/

def overOne (xs : List Int) : Sequence := xs.map fun x => (⟨.ofInt 1⟩, ⟨.ofInt x⟩)

/-- The ratio of such a trade. -/
def ratioOverOne (A : Arith F) (x : Int) : F := A.div (A.ofI128 x) (A.ofI128 1)

variable {xs : List Int}

theorem length_overOne (xs : List Int) : (overOne xs).length = xs.length := List.length_map ..

theorem take_overOne (xs : List Int) (n : Nat) : (overOne xs).take n = overOne (xs.take n) :=
  List.map_take.symm

theorem positivePairs_overOne (xs : List Int) :
    positivePairs (overOne xs).entries = overOne xs := by
  have hpairs : pairsOf (overOne xs).entries = overOne xs := by
    rw [pairsOf, Sequence.entries, List.filterMap_map]
    exact List.filterMap_some
  rw [positivePairs, hpairs, List.filter_eq_self]
  intro pair hpair
  obtain ⟨x, _, rfl⟩ := List.mem_map.mp hpair
  rfl

theorem ratio_overOne {x : Int} (hx : I128.InRange x) :
    ReconcileHistory.ratio A (⟨.ofInt 1⟩, ⟨.ofInt x⟩) = ratioOverOne A x := by
  have hone : (I128.ofInt 1).toInt = 1 := by decide
  rw [ReconcileHistory.ratio, I128.toInt_ofInt hx, hone, ratioOverOne]

theorem map_ratio_overOne (hxs : ∀ x ∈ xs, I128.InRange x) :
    (overOne xs).map (ReconcileHistory.ratio A) = xs.map (ratioOverOne A) := by
  rw [overOne, List.map_map]
  exact List.map_congr_left fun x hx => ratio_overOne (hxs x hx)

theorem halts_overOne_iff {kf ks : Nat} {tf ts : F} (H : p.RatioGuards ⟨tf, kf⟩ ⟨ts, ks⟩)
    (hxs : ∀ x ∈ xs, I128.InRange x) : p.Halts A (.ofEntries (overOne xs).entries) ↔
      (kf ≤ xs.length ∧ ∀ x ∈ xs.rtake kf, A.lt (ratioOverOne A x) tf) ∨
      (ks ≤ xs.length ∧
        A.lt (A.div (A.sum ((xs.rtake ks).map (ratioOverOne A))) (A.ofUsize ks)) ts) := by
  have hratios : ∀ n, ((overOne xs).rtake n).map (ReconcileHistory.ratio A) =
      (xs.rtake n).map (ratioOverOne A) := by
    intro n
    rw [map_rtake, map_ratio_overOne hxs, map_rtake]
  have hfast : (∀ pair ∈ (overOne xs).rtake kf, A.lt (ReconcileHistory.ratio A pair) tf) ↔
      ∀ x ∈ xs.rtake kf, A.lt (ratioOverOne A x) tf := by
    rw [← List.forall_mem_map (P := fun r => A.lt r tf), hratios, List.forall_mem_map]
  rw [H.halts_iff]
  simp only [TripsOn, H.fast, H.slow, positivePairs_overOne, length_overOne, hratios, hfast]

/-! ## Sums that stop -/

/-- Exact ratios whose sums stop at `n`, as those of ones stop at `2 ^ 53` in `f64`. -/
def Arith.capped (n : Nat) : Arith ℚ := { Arith.exact with sum := fun xs => min xs.sum n }

theorem ratioOverOne_capped (n : Nat) : ratioOverOne (Arith.capped n) 1 = 1 := by
  simp [ratioOverOne, Arith.capped]

/-- The mean of a window of ones. -/
theorem mean_ones_capped (m n k : Nat) :
    (Arith.capped n).div ((Arith.capped n).sum (((List.replicate m 1).rtake k).map
      (ratioOverOne (Arith.capped n)))) ((Arith.capped n).ofUsize k) =
      min ((min k m : Nat) : ℚ) n / k := by
  have hwindow : (List.replicate m (1 : Int)).rtake k = List.replicate (min k m) 1 := by
    rw [List.rtake, List.length_replicate, List.drop_replicate]
    congr 1
    omega
  rw [hwindow, List.map_replicate, ratioOverOne_capped]
  simp [Arith.capped]

/-- Ones that fill the longer slow window have a bad mean where sums stop below its length. -/
theorem misses_capped {kf ks kf' ks' : Nat} (hkf : 0 < kf') (hf : kf' ≤ kf) (hks : 0 < ks')
    (hs : ks' < ks) : ¬NeverMisses (Arith.capped (ks - 1)) kf ks kf' ks' ∧
      ¬MissesNoMore (Arith.capped (ks - 1)) kf ks kf' ks' := by
  have hrange : ∀ n, ∀ x ∈ List.replicate n (1 : Int), I128.InRange x := by
    intro n x hx
    rw [List.eq_of_mem_replicate hx]
    decide
  have hne : overOne (List.replicate ks 1) ≠ [] := by
    apply List.ne_nil_of_length_pos
    rw [length_overOne, List.length_replicate]
    omega
  have hlt : (Arith.capped (ks - 1)).lt 0 1 := by simp [Arith.capped]
  refine misses_of_halts hlt hkf hf hks hs.le hne ?_ ?_
  · intro p Hp
    refine (halts_overOne_iff Hp (hrange ks)).mpr (.inr ⟨List.length_replicate.ge, ?_⟩)
    rw [mean_ones_capped, min_self, min_eq_right (by exact_mod_cast Nat.sub_le ks 1)]
    have hpos : (0 : ℚ) < ks := by exact_mod_cast hks.trans hs
    refine decide_eq_true ((div_lt_one hpos).mpr ?_)
    exact_mod_cast Nat.sub_lt (hks.trans hs) Nat.one_pos
  · intro q Hq n _
    rw [take_overOne, List.take_replicate, halts_overOne_iff Hq (hrange _)]
    rintro (⟨hlen, hall⟩ | ⟨hlen, hmean⟩)
    · obtain ⟨x, hx⟩ := List.exists_mem_of_length_pos (l := (List.replicate _ (1 : Int)).rtake kf')
        (by rw [length_rtake, min_eq_left hlen]; exact hkf)
      have hlt := hall x hx
      rw [List.eq_of_mem_replicate (mem_of_mem_rtake hx), ratioOverOne_capped] at hlt
      have hlt' : (1 : ℚ) < 0 := of_decide_eq_true hlt
      norm_num at hlt'
    · rw [List.length_replicate] at hlen
      rw [mean_ones_capped, min_eq_left hlen,
        min_eq_left (by exact_mod_cast Nat.le_sub_one_of_lt hs),
        div_self (by exact_mod_cast hks.ne')] at hmean
      simp [Arith.capped] at hmean

/-! ## Windows that do not divide -/

/-- The arithmetic makes no error on the ratios 0, 1 and 2 and on the means of at most `n` of them,
compared with 1: what `f64` promises of whole numbers below `2 ^ 53`. -/
structure Arith.ExactTo (A : Arith F) (n : Nat) : Prop where
  ratio : ∀ x : Int, 0 ≤ x → x ≤ 2 → ratioOverOne A x = A.ofI128 x
  sum : ∀ xs : List Int, xs ≠ [] → xs.length ≤ n → (∀ x ∈ xs, 0 ≤ x ∧ x ≤ 2) →
    A.sum (xs.map A.ofI128) = A.ofI128 xs.sum
  lt : ∀ x y : Int, -1 ≤ x → x ≤ 2 → -1 ≤ y → y ≤ 2 →
    A.lt (A.ofI128 x) (A.ofI128 y) = decide (x < y)
  mean_lt : ∀ (k : Nat) (s : Int), 0 < k → k ≤ n → 0 ≤ s → s ≤ 2 * k →
    A.lt (A.div (A.ofI128 s) (A.ofUsize k)) (A.ofI128 1) = decide (s < k)

theorem Arith.exactTo_exact (n : Nat) : Arith.exact.ExactTo n where
  ratio x _ _ := by simp [ratioOverOne]
  sum xs _ _ _ := (map_list_sum (Int.castRingHom ℚ) xs).symm
  lt x y _ _ _ _ := by simp
  mean_lt k s hk _ _ _ := by
    have hpos : (0 : ℚ) < k := by exact_mod_cast hk
    have hlt : (s : ℚ) < k ↔ s < k := by exact_mod_cast Iff.rfl
    simp only [exact_lt, exact_div, exact_ofI128, exact_ofUsize, Int.cast_one, div_lt_one hpos, hlt]

/-- `f64` adds whole numbers as it should, from the first of them on. -/
theorem foldl_add_f64 {xs : List Int} (hxs : ∀ x ∈ xs, 0 ≤ x ∧ x ≤ 2) {s : Int} (hs : 0 ≤ s)
    (hlen : s + 2 * xs.length ≤ 40) :
    (xs.map Float.ofInt).foldl Float.add (Float.ofInt s) = Float.ofInt (s + xs.sum) := by
  have hadd : ∀ s : Int, 0 ≤ s → s ≤ 40 → ∀ x : Int, 0 ≤ x → x ≤ 2 →
      Float.add (Float.ofInt s) (Float.ofInt x) = Float.ofInt (s + x) := by decide +kernel
  induction xs generalizing s with
  | nil => rw [List.sum_nil, add_zero]; rfl
  | cons x xs ih =>
    rw [List.forall_mem_cons] at hxs
    obtain ⟨⟨hlo, hhi⟩, hxs⟩ := hxs
    rw [List.length_cons, Nat.cast_add_one] at hlen
    rw [List.map_cons, List.foldl_cons, hadd s hs (by omega) x hlo hhi,
      ih hxs (by omega) (by omega), List.sum_cons, add_assoc]

/-- `f64` makes none up to the shipped slow window, by the table of its sums and means. -/
theorem Arith.exactTo_f64 (overflowChecks : Bool) : (Arith.f64 overflowChecks).ExactTo 20 where
  ratio := by
    show ∀ x : Int, 0 ≤ x → x ≤ 2 → (Float.ofInt x).div (Float.ofInt 1) = Float.ofInt x
    decide +kernel
  sum xs hne hlen hxs := by
    obtain ⟨x, xs, rfl⟩ := List.exists_cons_of_ne_nil hne
    rw [List.forall_mem_cons] at hxs
    rw [List.length_cons] at hlen
    have hfirst : ∀ x : Int, 0 ≤ x → x ≤ 2 → Float.add (-0.0) (Float.ofInt x) = Float.ofInt x := by
      decide +kernel
    show ((x :: xs).map Float.ofInt).foldl Float.add (-0.0) = Float.ofInt (x :: xs).sum
    rw [List.map_cons, List.foldl_cons, hfirst x hxs.1.1 hxs.1.2,
      foldl_add_f64 hxs.2 hxs.1.1 (by omega), List.sum_cons]
  lt x y hx hx' hy hy' := by
    have htable : ∀ x : Int, -1 ≤ x → x ≤ 2 → ∀ y : Int, -1 ≤ y → y ≤ 2 →
        (Float.lt (Float.ofInt x) (Float.ofInt y) : Bool) = decide (x < y) := by decide +kernel
    exact htable x hx hx' y hy hy'
  mean_lt k s hk hkn hs hs' := by
    have htable : ∀ k : Nat, k ≤ 20 → 0 < k → ∀ s : Int, 0 ≤ s → s ≤ 2 * (k : Int) →
        (Float.lt (Float.div (Float.ofInt s) (Float.ofNat k)) (Float.ofInt 1) : Bool) =
          decide (s < (k : Int)) := by decide +kernel
    exact htable k hkn hk s hs hs'

/-- The mean of a window of such ratios is below 1 when their sum is below its length. -/
theorem Arith.ExactTo.mean_overOne {n k : Nat} (hA : A.ExactTo n) (hk : 0 < k) (hkn : k ≤ n)
    (hlen : xs.length = k) (hxs : ∀ x ∈ xs, 0 ≤ x ∧ x ≤ 2) :
    A.lt (A.div (A.sum (xs.map (ratioOverOne A))) (A.ofUsize k)) (A.ofI128 1) ↔ xs.sum < k := by
  have hratios : xs.map (ratioOverOne A) = xs.map A.ofI128 :=
    List.map_congr_left fun x hx => hA.ratio x (hxs x hx).1 (hxs x hx).2
  have hne : xs ≠ [] := List.ne_nil_of_length_pos (hlen ▸ hk)
  have hlo : 0 ≤ xs.sum := List.sum_nonneg fun x hx => (hxs x hx).1
  have hhi : xs.sum ≤ 2 * k := by
    have := List.sum_le_card_nsmul xs 2 fun x hx => (hxs x hx).2
    rw [hlen, nsmul_eq_mul] at this
    omega
  rw [hratios, hA.sum xs hne (hlen.trans_le hkn) hxs, hA.mean_lt k _ hk hkn hlo hhi]
  exact decide_eq_true_iff

/-- No such ratio is below -1, so only the slow window decides. -/
theorem Arith.ExactTo.halts_overOne_iff {n kf ks : Nat} (hA : A.ExactTo n)
    (H : p.RatioGuards ⟨A.ofI128 (-1), kf⟩ ⟨A.ofI128 1, ks⟩) (hks : ks ≤ n)
    (hxs : ∀ x ∈ xs, 0 ≤ x ∧ x ≤ 2) : p.Halts A (.ofEntries (overOne xs).entries) ↔
      ks ≤ xs.length ∧ (xs.rtake ks).sum < ks := by
  have hkf : 0 < kf := by simpa [H.fast] using p.fast_pos
  have hpos : 0 < ks := by simpa [H.slow] using p.slow_pos
  have hrange : ∀ x ∈ xs, I128.InRange x := fun x hx => by
    have := hxs x hx
    exact ⟨by omega, by omega⟩
  have hfast : ¬(kf ≤ xs.length ∧ ∀ x ∈ xs.rtake kf, A.lt (ratioOverOne A x) (A.ofI128 (-1))) := by
    rintro ⟨hlen, hall⟩
    obtain ⟨x, hx⟩ := List.exists_mem_of_length_pos (l := xs.rtake kf)
      (by rw [length_rtake, min_eq_left hlen]; exact hkf)
    obtain ⟨hlo, hhi⟩ := hxs x (mem_of_mem_rtake hx)
    have hlt := hall x hx
    rw [hA.ratio x hlo hhi, hA.lt _ _ (by omega) hhi (by decide) (by decide)] at hlt
    have := of_decide_eq_true hlt
    omega
  rw [Driftbrake.halts_overOne_iff H hrange, or_iff_right hfast]
  refine and_congr_right fun hlen => hA.mean_overOne hpos hks ?_ ?_
  · rw [length_rtake, min_eq_left hlen]
  · exact fun x hx => hxs x (mem_of_mem_rtake hx)

/-- How much of the predictions is missing after `i` trades of a sawtooth. -/
def lag (k i : Nat) : Int := if k ∣ i then 0 else 1

theorem lag_cases (k i : Nat) : lag k i = 0 ∨ lag k i = 1 := by
  rw [lag]
  split
  · exact .inl rfl
  · exact .inr rfl

/-- The ratios 0, 1, ..., 1, 2, over and over: one unit is lost at the start of every period of `k`
trades and regained at its end. -/
def sawtooth (k n : Nat) : List Int := (List.range n).map fun i => 1 + lag k i - lag k (i + 1)

variable {k n m : Nat}

theorem lag_sub (h : k ≤ n) : lag k (n - k) = lag k n := by
  have hdvd : k ∣ n - k ↔ k ∣ n := Nat.dvd_sub_iff_left h (Nat.dvd_refl k)
  simp only [lag, hdvd]

theorem length_sawtooth (k n : Nat) : (sawtooth k n).length = n := by simp [sawtooth]

theorem take_sawtooth (h : m ≤ n) : (sawtooth k n).take m = sawtooth k m := by
  rw [sawtooth, ← List.map_take, List.take_range, min_eq_left h, sawtooth]

theorem sawtooth_bounds : ∀ x ∈ sawtooth k n, 0 ≤ x ∧ x ≤ 2 := by
  intro x hx
  obtain ⟨i, _, rfl⟩ := List.mem_map.mp hx
  rcases lag_cases k i with h | h <;> rcases lag_cases k (i + 1) with h' | h' <;> omega

theorem sum_sawtooth (k n : Nat) : (sawtooth k n).sum = n - lag k n := by
  induction n with
  | zero => simp [sawtooth, lag]
  | succ n ih =>
    have hsucc : sawtooth k (n + 1) = sawtooth k n ++ [1 + lag k n - lag k (n + 1)] := by
      rw [sawtooth, List.range_succ, List.map_append, List.map_singleton, sawtooth]
    rw [hsucc, List.sum_append, ih, List.sum_singleton]
    push_cast
    ring

theorem sum_rtake_sawtooth (h : m ≤ n) :
    ((sawtooth k n).rtake m).sum = m - lag k n + lag k (n - m) := by
  have hsplit := congrArg List.sum (List.take_append_drop (n - m) (sawtooth k n))
  rw [List.sum_append, take_sawtooth (Nat.sub_le n m), sum_sawtooth, sum_sawtooth] at hsplit
  rw [List.rtake, length_sawtooth]
  push_cast [Nat.cast_sub h] at hsplit
  linarith

/-- Windows of one period are worth their length, and a window that is no whole number of periods
is worth less. -/
theorem misses_sawtooth {kf ks kf' ks' : Nat} (hA : A.ExactTo ks) (hkf : 0 < kf') (hf : kf' ≤ kf)
    (hks : 0 < ks') (hs : ks' ≤ ks) (hdvd : ¬ks' ∣ ks) :
    ¬NeverMisses A kf ks kf' ks' ∧ ¬MissesNoMore A kf ks kf' ks' := by
  have hlt : A.lt (A.ofI128 (-1)) (A.ofI128 1) := by
    rw [hA.lt _ _ (by decide) (by decide) (by decide) (by decide)]
    decide
  have hne : overOne (sawtooth ks' ks) ≠ [] := by
    apply List.ne_nil_of_length_pos
    rw [length_overOne, length_sawtooth]
    omega
  refine misses_of_halts hlt hkf hf hks hs hne ?_ ?_
  · intro p Hp
    rw [hA.halts_overOne_iff Hp (Nat.le_refl ks) sawtooth_bounds, length_sawtooth]
    refine ⟨Nat.le_refl ks, ?_⟩
    rw [rtake_of_length_le (length_sawtooth ks' ks).le, sum_sawtooth, lag, if_neg hdvd]
    omega
  · intro q Hq n hn
    rw [length_overOne, length_sawtooth] at hn
    rw [take_overOne, take_sawtooth hn, hA.halts_overOne_iff Hq hs sawtooth_bounds,
      length_sawtooth]
    rintro ⟨hlen, hsum⟩
    rw [sum_rtake_sawtooth hlen, lag_sub hlen] at hsum
    omega

/-! ## When shorter windows never miss more -/

/-- **When shorter windows never miss more.** With the same slow window, every sequence that halts a
policy halts the one with a shorter fast window, at all thresholds and in every arithmetic, and no
batch has more missed catches. No shorter slow window does so in every arithmetic, and one that does
not divide the longer window in no arithmetic that is exact on small whole numbers. -/
theorem never_misses_iff (kf ks kf' ks' : Nat) (hkf : 1 ≤ kf') (hf : kf' ≤ kf) (hks : 1 ≤ ks')
    (hs : ks' ≤ ks) :
    ((∀ (F : Type) (A : Arith F), NeverMisses A kf ks kf' ks') ↔ ks' = ks) ∧
    ((∀ (F : Type) (A : Arith F), MissesNoMore A kf ks kf' ks') ↔ ks' = ks) ∧
    (¬ks' ∣ ks → ∀ (F : Type) (A : Arith F), A.ExactTo ks →
      ¬NeverMisses A kf ks kf' ks' ∧ ¬MissesNoMore A kf ks kf' ks') := by
  have hmisses := fun hne => misses_capped hkf hf hks (Nat.lt_of_le_of_ne hs hne)
  refine ⟨⟨fun H => ?_, ?_⟩, ⟨fun H => ?_, ?_⟩, fun hdvd F A hA => ?_⟩
  · by_contra hne
    exact (hmisses hne).1 (H _ _)
  · rintro rfl F A
    exact neverMisses_same_slow A hkf hf hks
  · by_contra hne
    exact (hmisses hne).2 (H _ _)
  · rintro rfl F A
    exact missesNoMore_same_slow A hkf hf hks
  · exact misses_sawtooth hA hkf hf hks hs hdvd

/-- The shipped slow window in `f64`, with a shorter fast one, and cut to seven; with exact ratios,
a slow window of a hundred cut to thirty. -/
theorem never_misses_same_slow : NeverMisses (Arith.f64 true) 3 20 2 20 ∧
    MissesNoMore (Arith.f64 true) 3 20 2 20 ∧ ¬NeverMisses (Arith.f64 true) 3 20 3 7 ∧
    ¬MissesNoMore Arith.exact 3 100 3 30 :=
  have H := never_misses_iff 3 20 2 20 (by decide) (by decide) (by decide) (by decide)
  have H' := never_misses_iff 3 20 3 7 (by decide) (by decide) (by decide) (by decide)
  have H'' := never_misses_iff 3 100 3 30 (by decide) (by decide) (by decide) (by decide)
  ⟨H.1.mpr rfl _ _, H.2.1.mpr rfl _ _, (H'.2.2 (by decide) _ _ (Arith.exactTo_f64 true)).1,
    (H''.2.2 (by decide) _ _ (Arith.exactTo_exact 100)).2⟩

def threeBadTrades : Sequence :=
  [(⟨.ofInt 100⟩, ⟨.ofInt 60⟩), (⟨.ofInt 100⟩, ⟨.ofInt 80⟩), (⟨.ofInt 100⟩, ⟨.ofInt 60⟩)]

def twentyBadTrades : Sequence := List.replicate 20 (⟨.ofInt 10⟩, ⟨.ofInt 7⟩)

/-- In `f64`: ratios 0.6, 0.8, 0.6 halt a slow window of three and none of two, at the shipped
thresholds. No slow window below the shipped one is safe: twenty ratios 0.7 halt it and none that
divides it, and `sawtooth` makes the ratios for the others. -/
theorem not_never_misses_three_two : ¬NeverMisses (Arith.f64 true) 3 3 3 2 ∧
    ∀ k, 0 < k → k < 20 → ¬NeverMisses (Arith.f64 true) 3 20 3 k := by
  have hlt : (Arith.f64 true).lt 0.5 0.7 := by decide +kernel
  constructor
  · intro H
    have hlong : firstHaltOf (Arith.f64 true) true ⟨0.5, 3⟩ ⟨0.7, 3⟩ threeBadTrades =
        some (some 3) := by decide +kernel
    have hshort : firstHaltOf (Arith.f64 true) true ⟨0.5, 3⟩ ⟨0.7, 2⟩ threeBadTrades =
        some none := by decide +kernel
    obtain ⟨i', hi'⟩ := H true 0.5 0.7 hlt _ 3 hlong
    rw [hshort] at hi'
    cases hi'
  · intro k hk hk' H
    by_cases hdvd : k ∣ 20
    · have hlong : firstHaltOf (Arith.f64 true) true ⟨0.5, 3⟩ ⟨0.7, 20⟩ twentyBadTrades =
          some (some 20) := by decide +kernel
      have hshort : ∀ k < 20, 0 < k → k ∣ 20 → firstHaltOf (Arith.f64 true) true ⟨0.5, 3⟩
          ⟨0.7, k⟩ twentyBadTrades = some none := by decide +kernel
      obtain ⟨i', hi'⟩ := H true 0.5 0.7 hlt _ 20 hlong
      rw [hshort k hk' hk hdvd] at hi'
      cases hi'
    · exact (misses_sawtooth (Arith.exactTo_f64 true) (by decide) (Nat.le_refl 3) hk hk'.le
        hdvd).1 H

end Driftbrake
