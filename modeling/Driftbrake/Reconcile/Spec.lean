import Driftbrake.Reconcile.Verdicts
import Mathlib.Algebra.Order.BigOperators.Group.List
import Mathlib.Tactic.Positivity

/-!
# What the guards decide

`Condition p ops g` is the condition of the guard `g` of the policy `p`, stated on the sequence of
operations alone: no history, no reversal and no order of evaluation. In exact arithmetic each
check of `evaluate` decides its condition (`check_decides`), so `evaluate` halts exactly when some
condition holds and names the first one that does (`evaluate_spec`).
-/

namespace Driftbrake

namespace Pair

/-- `predicted - realized`, what the trade lost against its prediction. -/
def slippage (q : Pair) : Int := q.predicted - q.realized

def exactRatio (q : Pair) : ℚ := q.realized / q.predicted

end Pair

/-! ## Sums over a window -/

def sumPredicted (qs : List Pair) : Int := (qs.map (·.predicted)).sum

def sumRealized (qs : List Pair) : Int := (qs.map (·.realized)).sum

def sumSlippage (qs : List Pair) : Int := (qs.map (·.slippage)).sum

def ratioSum (qs : List Pair) : ℚ := (qs.map (·.exactRatio)).sum

/-- What the reverts among a sequence of operations have burned, `gas_used * price` each. -/
def feesBurned (ops : List HistoryEntry) : Nat :=
  ((ops.filterMap (·.revert?)).map fun event =>
    event.gasUsed.toNat * event.effectiveGasPrice.toNat).sum

theorem predicted_pos_of_mem {ops : List HistoryEntry} {q : Pair} (h : q ∈ positivePairs ops) :
    0 < q.predicted := by
  simpa [positive, Pair.predicted] using (List.mem_filter.mp h).2

namespace ReconcilePolicy

/-- The condition of a guard on a sequence of operations; a guard that is not enabled has none. -/
def Condition (p : ReconcilePolicy ℚ) (ops : List HistoryEntry) : Guard → Prop
  | .revertBurst => ∃ c, p.revertBurst = some c ∧
      c.limit ≤ ops.length ∧ ∀ e ∈ ops.rtake c.limit, e.isRevert
  | .revertGas => ∃ c, p.revertGas = some c ∧
      c.budgetLimit.toNat < feesBurned (ops.rtake c.window)
  | .fast =>
      p.fast.window ≤ (positivePairs ops).length ∧
      ∀ q ∈ (positivePairs ops).rtake p.fast.window, q.exactRatio < p.fast.threshold
  | .drawdown => ∃ c, p.drawdown = some c ∧
      c.window ≤ (pairsOf ops).length ∧
      c.maxDrawdownLimit.toInt < sumSlippage ((pairsOf ops).rtake c.window)
  | .volumeWeighted => ∃ c, p.volumeWeighted = some c ∧
      c.window ≤ (positivePairs ops).length ∧
      (sumRealized ((positivePairs ops).rtake c.window) : ℚ) <
        c.threshold * sumPredicted ((positivePairs ops).rtake c.window)
  | .slow =>
      p.slow.window ≤ (positivePairs ops).length ∧
      ratioSum ((positivePairs ops).rtake p.slow.window) / p.slow.window < p.slow.threshold

/-- A check that passes where `P` fails and trips, naming the guard `g`, where `P` holds. -/
def Decides (result : Option (Option (HaltReason ℚ))) (g : Guard) (P : Prop) : Prop :=
  (result = some none ∧ ¬P) ∨ ∃ r, result = some (some r) ∧ r.guard? = some g ∧ P

variable {p : ReconcilePolicy ℚ} {ops : List HistoryEntry}

/-- What a check trips on names its own guard. -/
theorem TripsIff.decides {result : Option (Option (HaltReason ℚ))} {g : Guard} {P : Prop}
    (H : TripsIff result P) (hg : ∀ r, result = some (some r) → r.guard? = some g) :
    Decides result g P := by
  rcases H with h | ⟨r, hr, hP⟩
  · exact .inl h
  · exact .inr ⟨r, hr, hg r hr, hP⟩

theorem feesIn_exact (ops : List HistoryEntry) :
    feesIn Arith.exact ops = some (feesBurned ops) := by
  have hfees := fun events : List RevertEvent =>
    List.mapM_pure (m := Option) (l := events) (f := fun event =>
      event.gasUsed.toNat * event.effectiveGasPrice.toNat)
  refine (congrArg (Option.bind · Arith.exact.sumU128) (hfees _)).trans ?_
  rw [Option.pure_def, Option.bind_some, Arith.exact_sumU128, List.filterMap_reverse,
    List.map_reverse, List.sum_reverse, feesBurned]

theorem slippageIn_exact (qs : List Pair) :
    slippageIn Arith.exact qs = some (sumSlippage qs) := by
  have hlosses := List.mapM_pure (m := Option) (l := qs.reverse) (f := Pair.slippage)
  refine (congrArg (Option.bind · Arith.exact.sumI128) hlosses).trans ?_
  rw [Option.pure_def, Option.bind_some, Arith.exact_sumI128, List.map_reverse, List.sum_reverse,
    sumSlippage]

theorem totalsIn_exact (qs : List Pair) :
    totalsIn Arith.exact qs = some (sumPredicted qs, sumRealized qs) := by
  rw [totalsIn, Arith.exact_sumI128, Arith.exact_sumI128, List.map_reverse, List.map_reverse,
    List.sum_reverse, List.sum_reverse]
  rfl

/-- The sum of the predictions over a full window of positive pairs. -/
theorem sum_predicted_rtake_pos {qs : List Pair} {n : Nat} (hn : 0 < n)
    (h : n ≤ (qs.filter positive).length) :
    0 < sumPredicted ((qs.filter positive).rtake n) := by
  apply List.sum_pos
  · intro x hx
    obtain ⟨q, hq, rfl⟩ := List.mem_map.mp hx
    simpa [positive, Pair.predicted] using (List.mem_filter.mp (mem_of_mem_rtake hq)).2
  · apply List.ne_nil_of_length_pos
    rw [List.length_map, length_rtake]
    omega

theorem sum_predicted_pos {n : Nat} (hn : 0 < n) (h : n ≤ (positivePairs ops).length) :
    0 < sumPredicted ((positivePairs ops).rtake n) :=
  sum_predicted_rtake_pos hn h

/-- In exact arithmetic a guard trips on its condition. -/
theorem tripsOn_exact_iff {g : Guard} : p.TripsOn Arith.exact ops g ↔ p.Condition ops g := by
  cases g with
  | revertBurst => exact Iff.rfl
  | revertGas => simp [TripsOn, Condition, feesIn_exact]
  | fast => simp [TripsOn, Condition, ReconcileHistory.ratio, Pair.exactRatio, Pair.predicted,
      Pair.realized]
  | drawdown => simp [TripsOn, Condition, slippageIn_exact]
  | volumeWeighted =>
    refine exists_congr fun c => and_congr_right fun hc => and_congr_right fun hlen => ?_
    have hpos := sum_predicted_pos (p.volumeWeighted_pos hc) hlen
    simp [totalsIn_exact, hpos, div_lt_iff₀ (Int.cast_pos (R := ℚ).mpr hpos)]
  | slow => exact and_congr_right fun _ => decide_eq_true_iff

/-- Exact sums never panic. -/
theorem not_panicsOn_exact (p : ReconcilePolicy ℚ) (ops : List HistoryEntry) (g : Guard) :
    ¬p.PanicsOn Arith.exact ops g := by
  cases g <;> simp [PanicsOn, feesIn_exact, slippageIn_exact, totalsIn_exact]

theorem check_tripsIff (p : ReconcilePolicy ℚ) (ops : List HistoryEntry) (g : Guard) :
    TripsIff (p.check Arith.exact (.ofEntries ops) g) (p.Condition ops g) :=
  ((check_outcome p Arith.exact ops g).tripsIff (not_panicsOn_exact p ops g)).congr
    tripsOn_exact_iff

/-- In exact arithmetic every check decides the condition of its guard. -/
theorem check_decides (p : ReconcilePolicy ℚ) (ops : List HistoryEntry) (g : Guard) :
    Decides (p.check Arith.exact (.ofEntries ops) g) g (p.Condition ops g) :=
  (check_tripsIff p ops g).decides fun _ => guard?_of_check

theorem check_eq_pass_iff {g : Guard} :
    p.check Arith.exact (.ofEntries ops) g = some none ↔ ¬p.Condition ops g :=
  (check_tripsIff p ops g).passes_iff

/-- `evaluate` continues exactly when no condition holds. -/
theorem evaluate_continue_iff :
    p.evaluate Arith.exact (.ofEntries ops) = some .continue ↔ ∀ g, ¬p.Condition ops g := by
  rw [evaluate_eq_continue]
  exact forall_congr' fun _ => check_eq_pass_iff

/-- Exact arithmetic never panics. -/
theorem evaluate_exact_isSome (p : ReconcilePolicy ℚ) (ops : List HistoryEntry) :
    ∃ d, p.evaluate Arith.exact (.ofEntries ops) = some d :=
  exists_evaluate (not_panicsOn_exact p ops)

theorem halts_iff : p.Halts Arith.exact (.ofEntries ops) ↔ ∃ g, p.Condition ops g :=
  (halts_iff_exists_tripsOn (not_panicsOn_exact p ops)).trans
    (exists_congr fun _ => tripsOn_exact_iff)

/-- The guard that a halt names, and the guards before it in the order of evaluation. -/
theorem halt_names_first {r : HaltReason ℚ}
    (h : p.evaluate Arith.exact (.ofEntries ops) = some (.halt r)) :
    ∃ before g after, Guard.order = before ++ g :: after ∧ r.guard? = some g ∧
      p.Condition ops g ∧ ∀ g' ∈ before, ¬p.Condition ops g' := by
  obtain ⟨before, g, after, horder, hg, hpass⟩ := firstHalt_eq_halt h
  refine ⟨before, g, after, horder, ?_, ?_, fun g' hg' => check_eq_pass_iff.mp (hpass g' hg')⟩ <;>
  · rcases check_decides p ops g with ⟨h', _⟩ | ⟨r', h', hr, hc⟩
    · rw [hg] at h'; cases h'
    · rw [hg] at h'; cases h'; assumption

/-- **The decision of `evaluate`**, in exact arithmetic, on the history after any sequence of
operations: it halts if and only if the condition of some guard holds, and then names the first
such guard in the order of evaluation. -/
theorem evaluate_spec (p : ReconcilePolicy ℚ) (ops : List HistoryEntry) :
    ∃ d, p.evaluate Arith.exact (.ofEntries ops) = some d ∧
      ((∃ r, d = .halt r) ↔ ∃ g, p.Condition ops g) ∧
      ∀ r, d = .halt r → ∃ before g after, Guard.order = before ++ g :: after ∧
        r.guard? = some g ∧ p.Condition ops g ∧ ∀ g' ∈ before, ¬p.Condition ops g' := by
  obtain ⟨d, hd⟩ := evaluate_exact_isSome p ops
  refine ⟨d, hd, ?_, ?_⟩
  · rw [← halts_iff]
    simp [Halts, hd]
  · rintro r rfl
    exact halt_names_first hd

end ReconcilePolicy

end Driftbrake
