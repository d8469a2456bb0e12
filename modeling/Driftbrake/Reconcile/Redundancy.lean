import Driftbrake.Core.Machine
import Driftbrake.Reconcile.Views
import Mathlib.Data.Rat.Floor
import Mathlib.Tactic.Linarith

/-!
# Whether one ratio guard makes the other redundant

The constructor asserts `T_f < T_s` so that neither guard covers for the other. That is not enough:
a fast window at least as long as the slow one makes every fast halt a slow halt. With
`k_f < k_s` the guards are independent unless the thresholds lie outside the ratios that `i128`
profits have (`nonRedundant_iff`).
-/

namespace Driftbrake

/-! ## The ratios of `i128` profits -/

namespace Pair

variable {q : Pair}

theorem neg_le_exactRatio (h : 0 < q.predicted) : -2 ^ 127 ≤ q.exactRatio := by
  have hlo : (-2 ^ 127 : ℚ) ≤ q.realized := by exact_mod_cast q.2.val.inRange_toInt.1
  have hone : (1 : ℚ) ≤ q.predicted := by exact_mod_cast h
  rw [exactRatio, le_div_iff₀ (by linarith)]
  linarith

theorem exactRatio_le (h : 0 < q.predicted) : q.exactRatio ≤ 2 ^ 127 - 1 := by
  have hhi : (q.realized : ℚ) ≤ 2 ^ 127 - 1 := by
    exact_mod_cast Int.le_sub_one_of_lt q.2.val.inRange_toInt.2
  have hone : (1 : ℚ) ≤ q.predicted := by exact_mod_cast h
  rw [exactRatio, div_le_iff₀ (by linarith)]
  linarith

/-- There is no ratio between the least one and its successor among the integers. -/
theorem exactRatio_gap (h : 0 < q.predicted) (hgt : -2 ^ 127 < q.exactRatio) :
    -2 ^ 127 + 1 ≤ q.exactRatio := by
  have hpos : (0 : ℚ) < q.predicted := by exact_mod_cast h
  have hlo : -2 ^ 127 ≤ q.realized := q.2.val.inRange_toInt.1
  rw [exactRatio, lt_div_iff₀ hpos] at hgt
  rw [exactRatio, le_div_iff₀ hpos]
  have hgt' : -2 ^ 127 * q.predicted < q.realized := by exact_mod_cast hgt
  have hle : (-2 ^ 127 + 1) * q.predicted ≤ q.realized := by omega
  exact_mod_cast hle

end Pair

/-! ## Sums of ratios -/

theorem ratioSum_lt {w : List Pair} {t : ℚ} (hne : w ≠ []) (h : ∀ q ∈ w, q.exactRatio < t) :
    ratioSum w < w.length * t := by
  have hlt := List.sum_lt_sum_of_ne_nil hne Pair.exactRatio (fun _ => t) h
  simpa [ratioSum] using hlt

theorem le_ratioSum {w : List Pair} {b : ℚ} (h : ∀ q ∈ w, b ≤ q.exactRatio) :
    w.length * b ≤ ratioSum w := by
  have hle := List.card_nsmul_le_sum (w.map Pair.exactRatio) b fun x hx => by
    obtain ⟨q, hq, rfl⟩ := List.mem_map.mp hx
    exact h q hq
  simpa [ratioSum] using hle

/-- One ratio of at least `c` lifts a sum of ratios of at least `b`. -/
theorem le_ratioSum_of_mem {w : List Pair} {b c : ℚ} {q : Pair} (hq : q ∈ w)
    (hc : c ≤ q.exactRatio) (h : ∀ q ∈ w, b ≤ q.exactRatio) :
    w.length * b + (c - b) ≤ ratioSum w := by
  obtain ⟨before, after, rfl⟩ := List.append_of_mem hq
  have hbefore := le_ratioSum fun q hq => h q (List.mem_append_left _ hq)
  have hafter := le_ratioSum fun q hq => h q (List.mem_append_right _ (List.mem_cons_of_mem _ hq))
  simp only [ratioSum, List.map_append, List.map_cons, List.sum_append, List.sum_cons,
    List.length_append, List.length_cons] at hbefore hafter ⊢
  push_cast
  linarith

/-! ## Histories of trades with prediction 1 -/

theorem positivePairs_trade {r : Int} (hr : I128.InRange r) :
    ∃ q, positivePairs [.trade 1 r] = [q] ∧ q.exactRatio = r := by
  refine ⟨(⟨.ofInt 1⟩, ⟨.ofInt r⟩), rfl, ?_⟩
  have hone : (I128.ofInt 1).toInt = 1 := by decide
  simp [Pair.exactRatio, Pair.realized, Pair.predicted, I128.toInt_ofInt hr, hone]

theorem positivePairs_replicate {r : Int} (hr : I128.InRange r) (n : Nat) :
    ∃ q, positivePairs (.replicate n (.trade 1 r)) = .replicate n q ∧ q.exactRatio = r := by
  obtain ⟨q, hpairs, hratio⟩ := positivePairs_trade hr
  refine ⟨q, ?_, hratio⟩
  induction n with
  | zero => rfl
  | succ n ih => rw [List.replicate_succ', positivePairs_append, ih, hpairs, List.replicate_succ']

namespace ReconcilePolicy

/-- The check of the guard trips on the history after the operations. -/
def Trips (p : ReconcilePolicy ℚ) (ops : List HistoryEntry) (g : Guard) : Prop :=
  ∃ r, p.check Arith.exact (.ofEntries ops) g = some (some r)

/-- Each of the two ratio guards trips on a history on which the other does not. -/
def NonRedundant (p : ReconcilePolicy ℚ) : Prop :=
  (∃ ops, p.Trips ops .fast ∧ ¬p.Trips ops .slow) ∧ ∃ ops, p.Trips ops .slow ∧ ¬p.Trips ops .fast

variable {p : ReconcilePolicy ℚ} {ops : List HistoryEntry}

theorem trips_iff {g : Guard} : p.Trips ops g ↔ p.Condition ops g :=
  (check_tripsIff p ops g).trips_iff

theorem condition_slow_iff : p.Condition ops .slow ↔
    p.slow.window ≤ (positivePairs ops).length ∧
      ratioSum ((positivePairs ops).rtake p.slow.window) < p.slow.window * p.slow.threshold := by
  have hpos : (0 : ℚ) < p.slow.window := by exact_mod_cast p.slow_pos
  rw [Condition, div_lt_iff₀ hpos, mul_comm p.slow.threshold]

/-- With a slow window no longer than the fast one a fast halt is a slow halt. -/
theorem slow_of_fast (ht : p.fast.threshold < p.slow.threshold)
    (hw : p.slow.window ≤ p.fast.window) (h : p.Condition ops .fast) : p.Condition ops .slow := by
  obtain ⟨hlen, hall⟩ := h
  have hle : p.slow.window ≤ (positivePairs ops).length := hw.trans hlen
  have hlength : ((positivePairs ops).rtake p.slow.window).length = p.slow.window := by
    rw [length_rtake, min_eq_left hle]
  have hne : (positivePairs ops).rtake p.slow.window ≠ [] := by
    apply List.ne_nil_of_length_pos
    rw [hlength]
    exact p.slow_pos
  refine condition_slow_iff.mpr ⟨hle, ?_⟩
  have hlt := ratioSum_lt hne (t := p.slow.threshold) fun q hq => by
    rw [← rtake_rtake hw] at hq
    exact (hall q (mem_of_mem_rtake hq)).trans ht
  rwa [hlength] at hlt

/-! ## When the fast guard trips alone -/

theorem exists_fast_alone (hw : p.fast.window < p.slow.window) (ht : -2 ^ 127 < p.fast.threshold) :
    ∃ ops, p.Condition ops .fast ∧ ¬p.Condition ops .slow := by
  obtain ⟨q, hpairs, hratio⟩ :=
    positivePairs_replicate (r := -2 ^ 127) (by decide) p.fast.window
  refine ⟨.replicate p.fast.window (.trade 1 (-2 ^ 127)), ⟨?_, fun q' hq' => ?_⟩, fun hslow => ?_⟩
  · rw [hpairs, List.length_replicate]
  · rw [hpairs] at hq'
    rw [List.eq_of_mem_replicate (mem_of_mem_rtake hq'), hratio]
    exact_mod_cast ht
  · have hlen := hslow.1
    rw [hpairs, List.length_replicate] at hlen
    omega

theorem fast_threshold_gt (h : p.Condition ops .fast) : -2 ^ 127 < p.fast.threshold := by
  obtain ⟨hlen, hall⟩ := h
  have hne : (positivePairs ops).rtake p.fast.window ≠ [] := by
    apply List.ne_nil_of_length_pos
    rw [length_rtake, min_eq_left hlen]
    exact p.fast_pos
  obtain ⟨q, hq⟩ := List.exists_mem_of_ne_nil _ hne
  exact (Pair.neg_le_exactRatio (predicted_pos_of_mem (mem_of_mem_rtake hq))).trans_lt (hall q hq)

/-! ## When the slow guard trips alone -/

/-- The sum over a slow window of least ratios, but for one at the fast threshold. -/
theorem slow_sum_lt (ht : p.fast.threshold < p.slow.threshold)
    (hw : p.fast.window < p.slow.window)
    (hs : 1 < p.slow.window * (p.slow.threshold + 2 ^ 127)) :
    (p.slow.window - 1) * (-2 ^ 127) + (⌈p.fast.threshold⌉ : ℚ) <
      p.slow.window * p.slow.threshold := by
  have htwo : (2 : ℚ) ≤ p.slow.window := by
    have := p.fast_pos
    exact_mod_cast (by omega : 2 ≤ p.slow.window)
  by_cases hleast : p.fast.threshold ≤ -2 ^ 127 + 1
  · have hceil : (⌈p.fast.threshold⌉ : ℚ) ≤ -2 ^ 127 + 1 := by
      have : ⌈p.fast.threshold⌉ ≤ -2 ^ 127 + 1 := Int.ceil_le.mpr (by exact_mod_cast hleast)
      exact_mod_cast this
    linarith
  · have hceil := Int.ceil_lt_add_one p.fast.threshold
    have hroom : (2 : ℚ) * (p.slow.threshold + 2 ^ 127) ≤
        p.slow.window * (p.slow.threshold + 2 ^ 127) :=
      mul_le_mul_of_nonneg_right htwo (by linarith)
    linarith

theorem exists_slow_alone (ht : p.fast.threshold < p.slow.threshold)
    (hw : p.fast.window < p.slow.window) (hlo : -2 ^ 127 < p.fast.threshold)
    (hhi : p.fast.threshold ≤ 2 ^ 127 - 1)
    (hs : 1 < p.slow.window * (p.slow.threshold + 2 ^ 127)) :
    ∃ ops, p.Condition ops .slow ∧ ¬p.Condition ops .fast := by
  have hceil : I128.InRange ⌈p.fast.threshold⌉ := by
    refine ⟨(Int.lt_ceil.mpr (by exact_mod_cast hlo)).le, Int.lt_of_le_sub_one ?_⟩
    exact Int.ceil_le.mpr (by exact_mod_cast hhi)
  obtain ⟨least, hleast, hratio⟩ :=
    positivePairs_replicate (r := -2 ^ 127) (by decide) (p.slow.window - 1)
  obtain ⟨last, hlast, hratio'⟩ := positivePairs_trade hceil
  let ops : List HistoryEntry :=
    .replicate (p.slow.window - 1) (.trade 1 (-2 ^ 127)) ++ [.trade 1 ⌈p.fast.threshold⌉]
  have hpairs : positivePairs ops = .replicate (p.slow.window - 1) least ++ [last] := by
    rw [positivePairs_append, hleast, hlast]
  have hlen : (List.replicate (p.slow.window - 1) least ++ [last]).length = p.slow.window := by
    have := p.slow_pos
    rw [List.length_append, List.length_replicate, List.length_singleton]
    omega
  refine ⟨ops, condition_slow_iff.mpr ?_, ?_⟩
  · rw [hpairs, rtake_of_length_le hlen.le, hlen]
    refine ⟨le_rfl, ?_⟩
    have hsum : ratioSum (List.replicate (p.slow.window - 1) least ++ [last]) =
        (p.slow.window - 1) * (-2 ^ 127) + (⌈p.fast.threshold⌉ : ℚ) := by
      rw [ratioSum, List.map_append, List.map_replicate, List.map_singleton, hratio, hratio',
        List.sum_append, List.sum_replicate, List.sum_singleton, nsmul_eq_mul,
        Nat.cast_pred p.slow_pos]
      push_cast
      rfl
    rw [hsum]
    exact slow_sum_lt ht hw hs
  · rintro ⟨_, hall⟩
    rw [hpairs, ← Nat.sub_add_cancel p.fast_pos, List.rtake_concat_succ] at hall
    have hlt := hall last (List.mem_append_right _ (List.mem_singleton_self last))
    rw [hratio'] at hlt
    exact absurd (Int.le_ceil p.fast.threshold) (not_le.mpr hlt)

/-- What a history on which the slow guard trips alone says about the thresholds. -/
theorem of_slow_alone (hw : p.fast.window < p.slow.window) (hlo : -2 ^ 127 < p.fast.threshold)
    (hslow : p.Condition ops .slow) (hfast : ¬p.Condition ops .fast) :
    p.fast.threshold ≤ 2 ^ 127 - 1 ∧ 1 < p.slow.window * (p.slow.threshold + 2 ^ 127) := by
  obtain ⟨hlen, hsum⟩ := condition_slow_iff.mp hslow
  obtain ⟨q, hq, hge⟩ : ∃ q ∈ (positivePairs ops).rtake p.fast.window,
      p.fast.threshold ≤ q.exactRatio := by
    by_contra hno
    push Not at hno
    exact hfast ⟨hw.le.trans hlen, hno⟩
  have hpos := predicted_pos_of_mem (mem_of_mem_rtake hq)
  refine ⟨hge.trans (Pair.exactRatio_le hpos), ?_⟩
  -- the ratio is above the least one, and the other ratios of the slow window are not below it
  rw [← rtake_rtake hw.le] at hq
  have hge' := le_ratioSum_of_mem (mem_of_mem_rtake hq)
    (Pair.exactRatio_gap hpos (hlo.trans_le hge))
    fun q hq => Pair.neg_le_exactRatio (predicted_pos_of_mem (mem_of_mem_rtake hq))
  rw [length_rtake, min_eq_left hlen] at hge'
  linarith

theorem of_new {fast : FastGuardConfig ℚ} {slow : SlowGuardConfig ℚ}
    (h : new Arith.exact true fast slow = some p) :
    p.fast = fast ∧ p.slow = slow ∧ fast.threshold < slow.threshold := by
  rw [new] at h
  split at h
  · split at h
    · cases h
    next hlt =>
      cases h
      exact ⟨rfl, rfl, by simpa using hlt⟩
  · cases h

/-- **When the two ratio guards are not redundant.** Of the configurations that `new` accepts with
its debug assertion, these are the ones with a fast window shorter than the slow one and with
thresholds that ratios of `i128` profits can be on both sides of. -/
theorem nonRedundant_iff {fast : FastGuardConfig ℚ} {slow : SlowGuardConfig ℚ}
    (hp : new Arith.exact true fast slow = some p) :
    p.NonRedundant ↔ fast.window < slow.window ∧
      -2 ^ 127 < fast.threshold ∧ fast.threshold ≤ 2 ^ 127 - 1 ∧
      1 < slow.window * (slow.threshold + 2 ^ 127) := by
  obtain ⟨rfl, rfl, ht⟩ := of_new hp
  simp only [NonRedundant, trips_iff]
  constructor
  · rintro ⟨⟨_, hfast, hnoslow⟩, ⟨_, hslow, hnofast⟩⟩
    have hw : p.fast.window < p.slow.window := by
      by_contra hle
      exact hnoslow (slow_of_fast ht (Nat.not_lt.mp hle) hfast)
    have hlo := fast_threshold_gt hfast
    exact ⟨hw, hlo, of_slow_alone hw hlo hslow hnofast⟩
  · rintro ⟨hw, hlo, hhi, hs⟩
    exact ⟨exists_fast_alone hw hlo, exists_slow_alone ht hw hlo hhi hs⟩

/-- The shipped configuration. -/
theorem nonRedundant_defaultDualGuard : defaultDualGuard.NonRedundant := by
  have hlt : (1 / 2 : ℚ) < 7 / 10 := by norm_num
  have hnew : new Arith.exact true ⟨1 / 2, 3⟩ ⟨7 / 10, 20⟩ = some defaultDualGuard := by
    simp [new, defaultDualGuard, -one_div, hlt]
  exact (nonRedundant_iff hnew).mpr ⟨by decide, by norm_num, by norm_num, by norm_num⟩

/-- The shipped thresholds with two windows of three. -/
theorem not_nonRedundant_equal_windows :
    ∃ p, new Arith.exact true ⟨1 / 2, 3⟩ ⟨7 / 10, 3⟩ = some p ∧ ¬p.NonRedundant := by
  have hlt : (1 / 2 : ℚ) < 7 / 10 := by norm_num
  refine ⟨{ defaultDualGuard with
    slow := ⟨7 / 10, 3⟩
    slow_pos := Nat.succ_pos 2 }, by simp [new, defaultDualGuard, -one_div, hlt], ?_⟩
  rintro ⟨⟨ops, hfast, hnoslow⟩, _⟩
  rw [trips_iff] at hfast hnoslow
  exact hnoslow (slow_of_fast hlt (Nat.le_refl 3) hfast)

end ReconcilePolicy

end Driftbrake
