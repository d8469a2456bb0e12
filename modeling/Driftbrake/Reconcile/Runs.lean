import Driftbrake.Reconcile.Views
import Mathlib.Tactic.Linarith

/-!
# What a run that never halts guarantees

In a run the operations are applied one at a time and the policy is evaluated after each. Every
window of the pairs is the last window at some moment of the run (`window_evaluated`), so a run
that is never halted has no window that trips a guard, and windows tile longer blocks.
-/

namespace Driftbrake

namespace ReconcilePolicy

/-- The policy returns `Continue` after each of the operations, applied one at a time. -/
def NeverHalts (p : ReconcilePolicy ℚ) (ops : List HistoryEntry) : Prop :=
  ∀ n < ops.length, p.evaluate Arith.exact (.ofEntries (ops.take (n + 1))) = some .continue

variable {p : ReconcilePolicy ℚ} {ops pre : List HistoryEntry}

theorem NeverHalts.not_condition (H : p.NeverHalts ops) (hpre : pre <+: ops) (hne : pre ≠ [])
    (g : Guard) : ¬p.Condition pre g := by
  have hpos := List.length_pos_of_ne_nil hne
  have hle := hpre.length_le
  have h := H (pre.length - 1) (by omega)
  rw [Nat.sub_add_cancel hpos, ← List.prefix_iff_eq_take.mp hpre] at h
  exact evaluate_continue_iff.mp h g

/-- A window of the positive pairs is the last one after some of the operations. -/
theorem window_evaluated (H : p.NeverHalts ops) {w : List Pair} (hw : w <:+: positivePairs ops)
    (hne : w ≠ []) :
    ∃ pre, w.length ≤ (positivePairs pre).length ∧ (positivePairs pre).rtake w.length = w ∧
      ∀ g, ¬p.Condition pre g := by
  rw [positivePairs_eq] at hw
  obtain ⟨pre, hpre, before, h⟩ := exists_prefix_ending hw
  rw [← positivePairs_eq] at h
  refine ⟨pre, by simp [h], by simp [h], H.not_condition hpre ?_⟩
  rintro rfl
  exact hne (List.append_eq_nil_iff.mp h.symm).2

/-- The same for a window of all pairs. -/
theorem pairs_window_evaluated (H : p.NeverHalts ops) {w : List Pair} (hw : w <:+: pairsOf ops)
    (hne : w ≠ []) :
    ∃ pre, w.length ≤ (pairsOf pre).length ∧ (pairsOf pre).rtake w.length = w ∧
      ∀ g, ¬p.Condition pre g := by
  obtain ⟨pre, hpre, before, h⟩ := exists_prefix_ending hw
  have h' : pairsOf pre = before ++ w := h
  refine ⟨pre, by simp [h'], by simp [h'], H.not_condition hpre ?_⟩
  rintro rfl
  exact hne (List.append_eq_nil_iff.mp h.symm).2

/-! ## One window -/

theorem NeverHalts.volumeWeighted_window (H : p.NeverHalts ops) {c} (hc : p.volumeWeighted = some c)
    {w : List Pair} (hw : w <:+: positivePairs ops) (hlen : w.length = c.window) :
    c.threshold * sumPredicted w ≤ sumRealized w := by
  have hpos := p.volumeWeighted_pos hc
  obtain ⟨pre, hle, hlast, hno⟩ := window_evaluated H hw (List.ne_nil_of_length_pos (by omega))
  by_contra hlt
  exact hno .volumeWeighted ⟨c, hc, hlen ▸ hle, by rw [← hlen, hlast]; exact not_le.mp hlt⟩

theorem NeverHalts.drawdown_window (H : p.NeverHalts ops) {c} (hc : p.drawdown = some c)
    {w : List Pair} (hw : w <:+: pairsOf ops) (hlen : w.length = c.window) :
    sumSlippage w ≤ c.maxDrawdownLimit.toInt := by
  have hpos := p.drawdown_pos hc
  obtain ⟨pre, hle, hlast, hno⟩ :=
    pairs_window_evaluated H hw (List.ne_nil_of_length_pos (by omega))
  by_contra hlt
  exact hno .drawdown ⟨c, hc, hlen ▸ hle, by rw [← hlen, hlast]; exact not_le.mp hlt⟩

theorem NeverHalts.slow_window (H : p.NeverHalts ops)
    {w : List Pair} (hw : w <:+: positivePairs ops) (hlen : w.length = p.slow.window) :
    p.slow.window * p.slow.threshold ≤ ratioSum w := by
  have hpos := p.slow_pos
  obtain ⟨pre, hle, hlast, hno⟩ := window_evaluated H hw (List.ne_nil_of_length_pos (by omega))
  by_contra hlt
  refine hno .slow ⟨hlen ▸ hle, ?_⟩
  rw [← hlen, hlast, hlen, div_lt_iff₀ (by exact_mod_cast hpos), mul_comm]
  exact not_le.mp hlt

theorem NeverHalts.fast_window (H : p.NeverHalts ops)
    {w : List Pair} (hw : w <:+: positivePairs ops) (hlen : w.length = p.fast.window) :
    ∃ q ∈ w, p.fast.threshold ≤ q.exactRatio := by
  have hpos := p.fast_pos
  obtain ⟨pre, hle, hlast, hno⟩ := window_evaluated H hw (List.ne_nil_of_length_pos (by omega))
  by_contra hall
  push Not at hall
  exact hno .fast ⟨hlen ▸ hle, by rw [← hlen, hlast]; exact hall⟩

/-! ## Blocks of windows -/

@[simp] theorem sumPredicted_append (a b : List Pair) :
    sumPredicted (a ++ b) = sumPredicted a + sumPredicted b := by simp [sumPredicted]

@[simp] theorem sumRealized_append (a b : List Pair) :
    sumRealized (a ++ b) = sumRealized a + sumRealized b := by simp [sumRealized]

@[simp] theorem sumSlippage_append (a b : List Pair) :
    sumSlippage (a ++ b) = sumSlippage a + sumSlippage b := by simp [sumSlippage]

@[simp] theorem ratioSum_append (a b : List Pair) :
    ratioSum (a ++ b) = ratioSum a + ratioSum b := by simp [ratioSum]

theorem NeverHalts.slow_block (H : p.NeverHalts ops) {m : Nat} {block : List Pair}
    (hb : block <:+: positivePairs ops) (hlen : block.length = m * p.slow.window) :
    m * p.slow.window * p.slow.threshold ≤ ratioSum block := by
  refine tile (P := fun m b => m * p.slow.window * p.slow.threshold ≤ ratioSum b) ?_ ?_ hb hlen
  · simp [ratioSum]
  · intro m a w ha hw hlen
    have := H.slow_window hw hlen
    push_cast [ratioSum_append]
    linarith

/-- **The bound of a run that is never halted**: over every block of whole windows, wherever it
starts, (a) the realized profit is at least the volume-weighted threshold times the predicted one,
(b) the slippage is at most the drawdown limit a window, (c) the ratios are at least the slow
threshold in the mean, and (d) every fast window has a ratio at or above the fast threshold. -/
theorem NeverHalts.guarantees (H : p.NeverHalts ops) :
    (∀ c, p.volumeWeighted = some c → ∀ m block, block <:+: positivePairs ops →
      block.length = m * c.window → c.threshold * sumPredicted block ≤ sumRealized block) ∧
    (∀ c, p.drawdown = some c → ∀ m block, block <:+: pairsOf ops →
      block.length = m * c.window → sumSlippage block ≤ m * c.maxDrawdownLimit.toInt) ∧
    (∀ m block, block <:+: positivePairs ops → block.length = m * p.slow.window →
      m * p.slow.window * p.slow.threshold ≤ ratioSum block) ∧
    (∀ block, block <:+: positivePairs ops → block.length = p.fast.window →
      ∃ q ∈ block, p.fast.threshold ≤ q.exactRatio) := by
  refine ⟨fun c hc m block hb hlen => ?_, fun c hc m block hb hlen => ?_,
    fun m block hb hlen => H.slow_block hb hlen, fun block hb hlen => H.fast_window hb hlen⟩
  · refine tile (P := fun _ b => c.threshold * sumPredicted b ≤ sumRealized b) ?_ ?_ hb hlen
    · simp [sumPredicted, sumRealized]
    · intro m a w ha hw hlen
      have := H.volumeWeighted_window hc hw hlen
      push_cast [sumPredicted_append, sumRealized_append]
      linarith
  · refine tile (P := fun m b => sumSlippage b ≤ m * c.maxDrawdownLimit.toInt) ?_ ?_ hb hlen
    · simp [sumSlippage]
    · intro m a w ha hw hlen
      have := H.drawdown_window hc hw hlen
      push_cast [sumSlippage_append]
      linarith

/-- A policy with every ratio and capital guard on windows of one trade. -/
def singleTradePolicy : ReconcilePolicy ℚ :=
  { defaultDualGuard with
    fast := ⟨1 / 2, 1⟩
    slow := ⟨7 / 10, 1⟩
    volumeWeighted := some ⟨3 / 4, 1⟩
    drawdown := some ⟨.ofInt 50, 1⟩
    fast_pos := Nat.one_pos
    slow_pos := Nat.one_pos
    volumeWeighted_pos := by rintro _ ⟨⟩; exact Nat.one_pos
    drawdown_pos := by rintro _ ⟨⟩; exact Nat.one_pos }

/-- Two good trades around a revert: a block of two windows. -/
theorem guarantees_two_trades :
    (3 / 4 : ℚ) * sumPredicted (positivePairs [.trade 100 90, .trade 200 160]) ≤
      sumRealized (positivePairs [.trade 100 90, .trade 200 160]) := by
  have hrun : singleTradePolicy.NeverHalts [.trade 100 90, .revert 21000 30, .trade 200 160] := by
    unfold NeverHalts
    decide +kernel
  exact hrun.guarantees.1 _ rfl 2 _ List.infix_rfl (by decide)

end ReconcilePolicy

end Driftbrake
