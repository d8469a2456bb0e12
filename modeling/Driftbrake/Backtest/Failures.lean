import Driftbrake.Backtest.Prevented

/-!
# How the batch engine fails

`run_sweep_raw` answers arrays of different lengths with an error and leaves out the grid points
whose thresholds the constructor of the policy would not take. Two failures it does not foresee: a
revert limit of 0, which the constructor does not take either, and losses that together do not fit
the `i128` they are added up in (`runSweepRaw_returns_iff`).
-/

namespace Driftbrake

namespace TradeRows

variable {F : Type}

/-- The call returns its results or its error, and does not panic, whatever the build checks. -/
def Returns (rows : TradeRows) (A : Arith F) (fastThresholds slowThresholds : List F)
    (revertLimits : List Nat) : Prop :=
  ∀ overflowChecks debugAssertions, (rows.runSweepRaw (A.machine overflowChecks) debugAssertions
    fastThresholds slowThresholds revertLimits).isSome

/-- The losses of the rows at which the policy halts fit an `i128`. -/
def LossesFit (rows : TradeRows) (A : Arith F) (p : ReconcilePolicy F) : Prop :=
  ∑ i ∈ Finset.range rows.predicted.length, rows.credit A p i < 2 ^ 127

variable {rows : TradeRows} {A : Arith F} {p : ReconcilePolicy F} {overflowChecks : Bool}
  {i n revLim : Nat} {fastT slowT : F} {debugAssertions : Bool}

/-! ## One grid point -/

/-- With thresholds in order the build does not matter to the constructors. -/
theorem pointPolicy_machine (hlt : A.lt fastT slowT = true) :
    pointPolicy (A.machine overflowChecks) debugAssertions fastT slowT revLim =
      pointPolicy (A.machine true) true fastT slowT revLim := by
  have hlt' : ∀ overflowChecks, (A.machine overflowChecks).lt fastT slowT = true := fun _ => hlt
  simp only [pointPolicy, ReconcilePolicy.new, hlt', Bool.not_true, Bool.and_false]

/-- They take every limit but 0. -/
theorem isSome_pointPolicy_iff (hlt : A.lt fastT slowT = true) :
    (pointPolicy (A.machine overflowChecks) debugAssertions fastT slowT revLim).isSome ↔
      0 < revLim := by
  have hlt' : (A.machine overflowChecks).lt fastT slowT = true := hlt
  by_cases hlim : 0 < revLim
  · simp [pointPolicy, ReconcilePolicy.new, ReconcilePolicy.withRevertBurst, hlt', hlim]
  · simp [pointPolicy, ReconcilePolicy.new, ReconcilePolicy.withRevertBurst, hlt', hlim]

/-- A checked sum is the exact one. -/
theorem total_of_sweepRows_checked (hm : rows.Matching) (hp : PointGuards p)
    (hn : n ≤ rows.predicted.length) {s : RowState}
    (h : rows.sweepRows (A.machine true) p n = some s) :
    s.totalDrawdown = ∑ i ∈ Finset.range n, rows.credit (A.machine true) p i := by
  induction n generalizing s with
  | zero =>
    cases h
    rfl
  | succ n ih =>
    rw [sweepRows_succ, Option.bind_eq_some_iff] at h
    obtain ⟨s₀, h₀, h⟩ := h
    have htotal := ih (by omega) h₀
    rw [sweepRow_eq hm hp hn (credited_of_sweepRows hm hp (by omega) h₀).history] at h
    rw [Finset.sum_range_succ, ← htotal, credit]
    split at h
    next hhalt =>
      obtain ⟨total, hadd, rfl⟩ := Option.map_eq_some_iff.mp h
      rw [if_pos hhalt]
      rw [addDrawdown_machine hm hn] at hadd
      split at hadd
      · obtain ⟨loss, hloss, hsum⟩ := Option.bind_eq_some_iff.mp hadd
        rw [I128.eq_of_result_checked hloss] at hsum
        exact I128.eq_of_result_checked hsum
      next hle =>
        cases hadd
        have hzero : rows.loss n = 0 := Int.le_antisymm (Int.not_lt.mp hle) (rows.loss_nonneg n)
        rw [hzero, Int.add_zero]
    next hno =>
      cases h
      rw [if_neg hno, Int.add_zero]

/-- Where the integers wrap nothing fails. -/
theorem isSome_sweepRows_unchecked (hm : rows.Matching) (hp : PointGuards p)
    (hn : n ≤ rows.predicted.length) : (rows.sweepRows (A.machine false) p n).isSome := by
  induction n with
  | zero => rfl
  | succ n ih =>
    obtain ⟨s, hs⟩ := Option.isSome_iff_exists.mp (ih (by omega))
    rw [sweepRows_succ, hs, Option.bind_some,
      sweepRow_eq hm hp hn (credited_of_sweepRows hm hp (by omega) hs).history]
    split
    · rw [Option.isSome_map, addDrawdown_machine hm hn]
      split
      · obtain ⟨loss, hloss⟩ :=
          Option.isSome_iff_exists.mp (I128.isSome_result_unchecked (rows.loss n))
        rw [hloss]
        exact I128.isSome_result_unchecked _
      · rfl
    · rfl

theorem isSome_sweepRows_checked_iff (hm : rows.Matching) (hp : PointGuards p) :
    (rows.sweepRows (A.machine true) p rows.predicted.length).isSome ↔
      rows.LossesFit (A.machine true) p := by
  constructor
  · intro H
    obtain ⟨s, hs⟩ := Option.isSome_iff_exists.mp H
    have hfits := (credited_of_sweepRows hm hp (Nat.le_refl _) hs).inRange
    rw [total_of_sweepRows_checked hm hp (Nat.le_refl _) hs] at hfits
    exact hfits.2
  · intro H
    obtain ⟨s, hs, _⟩ := exists_sweepRows hm hp (Nat.le_refl _) H
    rw [hs]
    rfl

theorem isSome_sweepPoint_iff
    (hp : pointPolicy (A.machine overflowChecks) debugAssertions fastT slowT revLim = some p) :
    (rows.sweepPoint (A.machine overflowChecks) debugAssertions fastT slowT revLim).isSome ↔
      (rows.sweepRows (A.machine overflowChecks) p rows.predicted.length).isSome := by
  simp only [Option.isSome_iff_exists, sweepPoint_eq_some_iff hp]
  refine ⟨fun ⟨_, s, hs, _⟩ => ⟨s, hs⟩, fun ⟨s, hs⟩ => ⟨_, s, hs, rfl⟩⟩

/-- A grid point is evaluated in every build just when its limit is not 0 and the losses fit. -/
theorem isSome_sweepPoint_all_iff (hm : rows.Matching) (hlt : A.lt fastT slowT = true) :
    (∀ overflowChecks debugAssertions,
      (rows.sweepPoint (A.machine overflowChecks) debugAssertions fastT slowT revLim).isSome) ↔
      0 < revLim ∧ ∀ p, pointPolicy (A.machine true) true fastT slowT revLim = some p →
        rows.LossesFit (A.machine true) p := by
  by_cases hlim : 0 < revLim
  · have hsome : (pointPolicy (A.machine true) true fastT slowT revLim).isSome :=
      (isSome_pointPolicy_iff hlt).mpr hlim
    obtain ⟨p, hp⟩ := Option.isSome_iff_exists.mp hsome
    have hall : ∀ overflowChecks debugAssertions,
        pointPolicy (A.machine overflowChecks) debugAssertions fastT slowT revLim = some p :=
      fun _ _ => (pointPolicy_machine hlt).trans hp
    have hguards := pointGuards hp
    refine ⟨fun H => ⟨hlim, fun p' hp' => ?_⟩, fun H overflowChecks debugAssertions => ?_⟩
    · cases hp.symm.trans hp'
      exact (isSome_sweepRows_checked_iff hm hguards).mp
        ((isSome_sweepPoint_iff hp).mp (H true true))
    · refine (isSome_sweepPoint_iff (hall overflowChecks debugAssertions)).mpr ?_
      cases overflowChecks with
      | false => exact isSome_sweepRows_unchecked hm hguards (Nat.le_refl _)
      | true => exact (isSome_sweepRows_checked_iff hm hguards).mpr (H.2 p hp)
  · refine iff_of_false (fun H => hlim ?_) fun H => hlim H.1
    obtain ⟨r, hr⟩ := Option.isSome_iff_exists.mp (H true true)
    rw [sweepPoint, Option.bind_eq_bind, Option.bind_eq_some_iff] at hr
    obtain ⟨p, hp, _⟩ := hr
    exact (isSome_pointPolicy_iff hlt).mp (Option.isSome_iff_exists.mpr ⟨p, hp⟩)

theorem mem_gridPoints {fastThresholds slowThresholds : List F} {revertLimits : List Nat} :
    (fastT, slowT, revLim) ∈ gridPoints A fastThresholds slowThresholds revertLimits ↔
      fastT ∈ fastThresholds ∧ slowT ∈ slowThresholds ∧ A.le slowT fastT = false ∧
        revLim ∈ revertLimits := by
  simp [gridPoints, and_assoc]

theorem isSome_runSweepRaw_iff (hm : rows.Matching) {fastThresholds slowThresholds : List F}
    {revertLimits : List Nat} :
    (rows.runSweepRaw A debugAssertions fastThresholds slowThresholds revertLimits).isSome ↔
      ∀ point ∈ gridPoints A fastThresholds slowThresholds revertLimits,
        (rows.sweepPoint A debugAssertions point.1 point.2.1 point.2.2).isSome := by
  rw [← isSome_mapM_iff, runSweepRaw, if_neg]
  · cases (gridPoints A fastThresholds slowThresholds revertLimits).mapM fun point =>
      rows.sweepPoint A debugAssertions point.1 point.2.1 point.2.2 <;> rfl
  · rw [not_or, not_not, not_not]
    exact hm

/-- **How `run_sweep_raw` fails.** With finite thresholds, of which one is less than another or not,
the call returns its results or its error in every build if and only if the arrays have different
lengths, or at every point of the grid the revert limit is not 0 and the losses of the rows at which
the policy halts fit an `i128`. -/
theorem runSweepRaw_returns_iff {fastThresholds slowThresholds : List F} {revertLimits : List Nat}
    (hfinite : ∀ fastT ∈ fastThresholds, ∀ slowT ∈ slowThresholds,
      A.lt fastT slowT = !A.le slowT fastT) :
    rows.Returns A fastThresholds slowThresholds revertLimits ↔
      (rows.Matching → ∀ fastT slowT revLim,
        (fastT, slowT, revLim) ∈ gridPoints A fastThresholds slowThresholds revertLimits →
        0 < revLim ∧ ∀ p, pointPolicy (A.machine true) true fastT slowT revLim = some p →
          rows.LossesFit (A.machine true) p) := by
  by_cases hm : rows.Matching
  · have hrun : rows.Returns A fastThresholds slowThresholds revertLimits ↔
        ∀ point ∈ gridPoints A fastThresholds slowThresholds revertLimits,
        ∀ overflowChecks debugAssertions, (rows.sweepPoint (A.machine overflowChecks)
          debugAssertions point.1 point.2.1 point.2.2).isSome := by
      simp only [Returns, isSome_runSweepRaw_iff hm]
      exact ⟨fun H point hpoint oc da => H oc da point hpoint,
        fun H oc da point hpoint => H point hpoint oc da⟩
    rw [hrun, forall_prop_of_true hm, Prod.forall]
    refine forall_congr' fun fastT => ?_
    rw [Prod.forall]
    refine forall₃_congr fun slowT revLim hpoint => ?_
    obtain ⟨hfast, hslow, hle, _⟩ := mem_gridPoints.mp hpoint
    have hlt : A.lt fastT slowT = true := by
      rw [hfinite fastT hfast slowT hslow, hle]
      rfl
    exact isSome_sweepPoint_all_iff hm hlt
  · refine iff_of_true (fun _ _ => ?_) fun h => absurd h hm
    rw [runSweepRaw, if_pos (not_and_or.mp hm)]
    rfl

/-- Three bad trades, on a grid of one point. -/
theorem runSweepRaw_returns_acuteDrift :
    acuteDrift.Returns Arith.exact [1 / 2] [7 / 10] [3] ↔
      (acuteDrift.Matching → ∀ fastT slowT revLim,
        (fastT, slowT, revLim) ∈ gridPoints Arith.exact [1 / 2] [7 / 10] [3] →
        0 < revLim ∧ ∀ p, pointPolicy (Arith.exact.machine true) true fastT slowT revLim = some p →
          acuteDrift.LossesFit (Arith.exact.machine true) p) := by
  refine runSweepRaw_returns_iff fun fastT _ slowT _ => ?_
  simp [← not_le]

/-- Trades of which each loses more than an `i128` can say. -/
def ruinousTrades : TradeRows where
  predicted := List.replicate 3 (.ofInt (2 ^ 127 - 1))
  realized := List.replicate 3 (.ofInt (-2 ^ 127))
  isRevert := List.replicate 3 false
  gasUsed := []
  gasPrice := []

/-- A limit of 0 panics, with no row at all, and so does the loss of a row on which the policy
halts. -/
theorem not_returns_zero_limit_ruinous :
    ¬Returns ⟨[], [], [], [], []⟩ Arith.exact [1 / 2] [7 / 10] [0] ∧
      ¬ruinousTrades.Returns Arith.exact [1 / 2] [7 / 10] [3] := by
  refine ⟨fun H => absurd (H false false) ?_, fun H => absurd (H true false) ?_⟩
  · decide +kernel
  · decide +kernel

end TradeRows

end Driftbrake
