import Driftbrake.Core.Machine
import Driftbrake.Reconcile.Spec

/-!
# The capital guards in machine arithmetic

The drawdown guard and the volume-weighted guard sum `i128` values that nothing bounds. In a build
of either kind they decide what they would decide over unbounded integers as long as the sums they
form fit (`drawdownCheck_of_fits`, `volumeWeightedCheck_of_fits`), and a build with overflow checks
panics where one does not. `capitalExact_iff` says when `evaluate` is exact in both.
-/

namespace Driftbrake

open Arith (SumFits)

variable {F : Type}

namespace ReconcileHistory

/-- The history that `append` builds of some pairs. -/
def ofPairs (qs : List Pair) : ReconcileHistory :=
  qs.foldl (fun history q => history.append q.1 q.2) .new

theorem ofPairs_eq (qs : List Pair) :
    ofPairs qs = ofEntries (qs.map fun q => .confirmedPair q.1 q.2) := by
  rw [ofPairs, ofEntries, List.foldl_map]
  rfl

@[simp] theorem pairs_ofPairs (qs : List Pair) : (ofPairs qs).pairs = qs := by
  rw [ofPairs_eq, pairs_ofEntries, List.filterMap_map]
  exact List.filterMap_some

theorem consecutiveReverts_ofPairs (qs : List Pair) : (ofPairs qs).consecutiveReverts = 0 := by
  rw [consecutiveReverts, ofPairs_eq, timeline_ofEntries, ← List.map_reverse]
  cases qs.reverse <;> rfl

theorem recentRevertGasBurned_ofPairs (qs : List Pair) (A : Arith F) (window : Nat) :
    (ofPairs qs).recentRevertGasBurned A window = some 0 := by
  have hnone : (((ofPairs qs).timeline.reverse.take window).filterMap (·.revert?)) = [] := by
    rw [ofPairs_eq, timeline_ofEntries, ← List.map_reverse, ← List.map_take,
      List.filterMap_map]
    exact List.filterMap_eq_nil_iff.mpr fun _ _ => rfl
  rw [recentRevertGasBurned, hnone]
  rfl

end ReconcileHistory

namespace ReconcilePolicy

/-! ## The conditions over unbounded integers -/

def FastHolds (p : ReconcilePolicy F) (A : Arith F) (qs : List Pair) : Prop :=
  p.fast.window ≤ (qs.filter positive).length ∧
    ∀ q ∈ (qs.filter positive).rtake p.fast.window,
      A.lt (ReconcileHistory.ratio A q) p.fast.threshold

def DrawdownHolds (c : DrawdownConfig) (qs : List Pair) : Prop :=
  c.window ≤ qs.length ∧ c.maxDrawdownLimit.toInt < sumSlippage (qs.rtake c.window)

/-- The condition of the volume-weighted guard, with its last division and comparison in `f64`. -/
def VolumeHolds (A : Arith F) (v : VolumeWeightedConfig F) (qs : List Pair) : Prop :=
  let w := (qs.filter positive).rtake v.window
  v.window ≤ (qs.filter positive).length ∧
    A.lt (A.div (A.ofI128 (sumRealized w)) (A.ofI128 (sumPredicted w))) v.threshold

/-! ## The sums that are formed -/

/-- The differences of a full window, and their partial sums from the latest on, are in range. -/
def DrawdownFits (c : DrawdownConfig) (qs : List Pair) : Prop :=
  c.window ≤ qs.length →
    (∀ q ∈ qs.rtake c.window, I128.InRange q.slippage) ∧
      SumFits ((qs.rtake c.window).reverse.map (·.slippage))

/-- The partial sums of the two totals of a full window, from the latest on, are in range. -/
def VolumeFits (v : VolumeWeightedConfig F) (qs : List Pair) : Prop :=
  let w : List Pair := (qs.filter positive).rtake v.window
  v.window ≤ (qs.filter positive).length →
    SumFits (w.reverse.map (·.predicted)) ∧ SumFits (w.reverse.map (·.realized))

/-! ## The checks -/

variable {p : ReconcilePolicy F} {A : Arith F} {c : DrawdownConfig} {v : VolumeWeightedConfig F}
  {qs : List Pair} {overflowChecks : Bool}

theorem revertBurstCheck_ofPairs : p.revertBurstCheck (.ofPairs qs) = some none := by
  rw [revertBurstCheck, ReconcileHistory.consecutiveReverts_ofPairs]
  split
  · rfl
  next burst h => rw [if_neg (Nat.not_le.mpr (p.revertBurst_pos h))]

theorem revertGasCheck_ofPairs : p.revertGasCheck A (.ofPairs qs) = some none := by
  rw [revertGasCheck]
  split
  · rfl
  · rw [ReconcileHistory.recentRevertGasBurned_ofPairs]
    rfl

theorem fastCheck_ofPairs (p : ReconcilePolicy F) (A : Arith F) (qs : List Pair)
    (overflowChecks : Bool) :
    TripsIff (p.fastCheck (A.machine overflowChecks) (.ofPairs qs)) (p.FastHolds A qs) := by
  have hratios : (ReconcileHistory.ofPairs qs).recentRatios (A.machine overflowChecks)
      p.fast.window =
      ((qs.filter positive).rtake p.fast.window).map (ReconcileHistory.ratio A) := by
    rw [ReconcileHistory.recentRatios_eq, ReconcileHistory.pairs_ofPairs]
    rfl
  rw [fastCheck, hratios]
  refine tripsIff_ite.congr ?_
  rw [List.length_map, length_rtake, FastHolds]
  simp [Arith.machine]

theorem sumI128_reverse {w : List Pair} {f : Pair → Int} (h : SumFits (w.reverse.map f)) :
    (A.machine overflowChecks).sumI128 (w.reverse.map f) = some (w.map f).sum := by
  rw [Arith.sumI128_of_fits h, List.map_reverse, List.sum_reverse]

theorem mapM_slippage (h : ∀ q ∈ qs, I128.InRange q.slippage) :
    (qs.mapM fun pair => (A.machine overflowChecks).subI128 pair.1.val.toInt pair.2.val.toInt) =
      some (qs.map (·.slippage)) :=
  mapM_eq_some_map fun q hq => I128.result_of_inRange (h q hq)

/-- The drawdown guard is exact where its sums fit. -/
theorem drawdownCheck_of_fits (hc : p.drawdown = some c) (h : DrawdownFits c qs) :
    TripsIff (p.drawdownCheck (A.machine overflowChecks) (.ofPairs qs)) (DrawdownHolds c qs) := by
  simp only [drawdownCheck, hc, ReconcileHistory.pairs_ofPairs]
  refine tripsIff_window fun hfull => ?_
  obtain ⟨hrange, hsum⟩ := h hfull
  rw [take_reverse_eq, mapM_slippage fun q hq => hrange q (List.mem_reverse.mp hq),
    Option.bind_eq_bind, Option.bind_some, sumI128_reverse hsum, Option.bind_eq_bind,
    Option.bind_some]
  exact tripsIff_ite

/-- A build with overflow checks panics where they do not. -/
theorem drawdownCheck_eq_none (hc : p.drawdown = some c) (h : ¬DrawdownFits c qs) :
    p.drawdownCheck (A.machine true) (.ofPairs qs) = none := by
  obtain ⟨hfull, hno⟩ := Classical.not_imp.mp h
  have hlen : (qs.reverse.take c.window).length = c.window := by simpa using hfull
  simp only [drawdownCheck, hc, ReconcileHistory.pairs_ofPairs, if_pos hlen]
  rw [take_reverse_eq]
  by_cases hrange : ∀ q ∈ qs.rtake c.window, I128.InRange q.slippage
  · rw [mapM_slippage fun q hq => hrange q (List.mem_reverse.mp hq), Option.bind_eq_bind,
      Option.bind_some, Arith.sumI128_eq_none fun hsum => hno ⟨hrange, hsum⟩]
    rfl
  · push Not at hrange
    obtain ⟨q, hq, hout⟩ := hrange
    rw [mapM_eq_none (List.mem_reverse.mpr hq) (I128.result_checked hout)]
    rfl

theorem volumeWeightedCheck_of_fits (hv : p.volumeWeighted = some v) (h : VolumeFits v qs) :
    TripsIff (p.volumeWeightedCheck (A.machine overflowChecks) (.ofPairs qs))
      (VolumeHolds A v qs) := by
  simp only [volumeWeightedCheck, hv, ReconcileHistory.pairs_ofPairs, List.filter_reverse]
  refine tripsIff_window fun hfull => ?_
  obtain ⟨hpredicted, hrealized⟩ := h hfull
  have hpos := sum_predicted_rtake_pos (p.volumeWeighted_pos hv) hfull
  rw [take_reverse_eq]
  generalize (qs.filter positive).rtake v.window = w at hpredicted hrealized hpos ⊢
  have htotal : (A.machine overflowChecks).sumI128
      (w.reverse.map fun pair => pair.1.val.toInt) = some (sumPredicted w) :=
    sumI128_reverse hpredicted
  have htotal' : (A.machine overflowChecks).sumI128
      (w.reverse.map fun pair => pair.2.val.toInt) = some (sumRealized w) :=
    sumI128_reverse hrealized
  rw [htotal, Option.bind_eq_bind, Option.bind_some, htotal', Option.bind_some, if_pos hpos]
  exact tripsIff_ite

theorem volumeWeightedCheck_eq_none (hv : p.volumeWeighted = some v) (h : ¬VolumeFits v qs) :
    p.volumeWeightedCheck (A.machine true) (.ofPairs qs) = none := by
  obtain ⟨hfull, hno⟩ := Classical.not_imp.mp h
  have hlen : ((qs.filter positive).reverse.take v.window).length = v.window := by
    simpa using hfull
  simp only [volumeWeightedCheck, hv, ReconcileHistory.pairs_ofPairs, List.filter_reverse,
    if_pos hlen]
  rw [take_reverse_eq]
  generalize (qs.filter positive).rtake v.window = w at hno ⊢
  by_cases hpredicted : SumFits (w.reverse.map Pair.predicted)
  · have htotal : (A.machine true).sumI128
        (w.reverse.map fun pair => pair.1.val.toInt) = some (sumPredicted w) :=
      sumI128_reverse hpredicted
    have hpanic : (A.machine true).sumI128 (w.reverse.map fun pair => pair.2.val.toInt) = none :=
      Arith.sumI128_eq_none fun hrealized => hno ⟨hpredicted, hrealized⟩
    rw [htotal, Option.bind_eq_bind, Option.bind_some, hpanic]
    rfl
  · have hpanic : (A.machine true).sumI128 (w.reverse.map fun pair => pair.1.val.toInt) = none :=
      Arith.sumI128_eq_none hpredicted
    rw [hpanic]
    rfl

theorem slowCheck_ne_none (p : ReconcilePolicy F) (A : Arith F) (history : ReconcileHistory) :
    p.slowCheck A history ≠ none := by
  simp only [slowCheck]
  split
  · split <;> exact Option.some_ne_none _
  · exact Option.some_ne_none _

/-! ## `evaluate` on pairs -/

theorem names_drawdown_iff :
    p.Names (A.machine overflowChecks) (.ofPairs qs) .drawdown ↔ ¬p.FastHolds A qs ∧
      ∃ r, p.drawdownCheck (A.machine overflowChecks) (.ofPairs qs) = some (some r) := by
  have horder : Guard.order =
      [.revertBurst, .revertGas, .fast] ++ .drawdown :: [.volumeWeighted, .slow] := rfl
  rw [names_iff horder, ← (fastCheck_ofPairs p A qs overflowChecks).passes_iff]
  simp [check, revertBurstCheck_ofPairs, revertGasCheck_ofPairs]

theorem names_volumeWeighted_iff :
    p.Names (A.machine overflowChecks) (.ofPairs qs) .volumeWeighted ↔ ¬p.FastHolds A qs ∧
      p.drawdownCheck (A.machine overflowChecks) (.ofPairs qs) = some none ∧
      ∃ r, p.volumeWeightedCheck (A.machine overflowChecks) (.ofPairs qs) = some (some r) := by
  have horder : Guard.order =
      [.revertBurst, .revertGas, .fast, .drawdown] ++ .volumeWeighted :: [.slow] := rfl
  rw [names_iff horder, ← (fastCheck_ofPairs p A qs overflowChecks).passes_iff]
  simp [check, revertBurstCheck_ofPairs, revertGasCheck_ofPairs, and_assoc]

/-- Where `evaluate` does not panic: a guard before the panicking one trips, or none panics. -/
theorem evaluate_ne_none_iff :
    p.evaluate (A.machine overflowChecks) (.ofPairs qs) ≠ none ↔ p.FastHolds A qs ∨
      (∃ r, p.drawdownCheck (A.machine overflowChecks) (.ofPairs qs) = some (some r)) ∨
      p.drawdownCheck (A.machine overflowChecks) (.ofPairs qs) = some none ∧
        p.volumeWeightedCheck (A.machine overflowChecks) (.ofPairs qs) ≠ none := by
  simp only [evaluate, Guard.order, firstHalt, check, revertBurstCheck_ofPairs,
    revertGasCheck_ofPairs, Option.bind_eq_bind, Option.bind_some]
  rcases fastCheck_ofPairs p A qs overflowChecks with ⟨hfast, hno⟩ | ⟨r, hfast, hholds⟩
  · rcases hdd : p.drawdownCheck (A.machine overflowChecks) (.ofPairs qs) with _ | _ | r
    · simp [hfast, hno]
    · rcases hvw : p.volumeWeightedCheck (A.machine overflowChecks) (.ofPairs qs) with _ | _ | r
      · simp [hfast, hno]
      · obtain ⟨result, hslow⟩ := Option.ne_none_iff_exists'.mp
          (p.slowCheck_ne_none (A.machine overflowChecks) (.ofPairs qs))
        cases result <;> simp [hfast, hno, hslow]
      · simp [hfast, hno]
    · simp [hfast, hno]
  · simp [hfast, hholds]

variable (p A c v qs)

/-- Over the history of the pairs no `i128` operation of `evaluate` overflows, and in both kinds of
build the capital guards trip exactly when they are reached and their conditions hold. -/
structure CapitalExact : Prop where
  no_overflow : p.evaluate (A.machine true) (.ofPairs qs) ≠ none
  drawdown : ∀ overflowChecks, p.Names (A.machine overflowChecks) (.ofPairs qs) .drawdown ↔
    ¬p.FastHolds A qs ∧ DrawdownHolds c qs
  volumeWeighted : ∀ overflowChecks,
    p.Names (A.machine overflowChecks) (.ofPairs qs) .volumeWeighted ↔
      ¬p.FastHolds A qs ∧ ¬DrawdownHolds c qs ∧ VolumeHolds A v qs

/-- The sums that `evaluate` gets to form are in range. -/
def CapitalFits : Prop :=
  p.FastHolds A qs ∨ DrawdownFits c qs ∧ (DrawdownHolds c qs ∨ VolumeFits v qs)

variable {p A c v qs}

theorem CapitalFits.of_no_overflow (hc : p.drawdown = some c) (hv : p.volumeWeighted = some v)
    (h : p.evaluate (A.machine true) (.ofPairs qs) ≠ none) : p.CapitalFits A c v qs := by
  rcases evaluate_ne_none_iff.mp h with hfast | hrest
  · exact .inl hfast
  have hdd : DrawdownFits c qs := by
    by_contra hno
    rw [drawdownCheck_eq_none hc hno] at hrest
    simp at hrest
  refine .inr ⟨hdd, ?_⟩
  rcases hrest with htrip | ⟨_, hvw⟩
  · exact .inl ((drawdownCheck_of_fits hc hdd).trips_iff.mp htrip)
  · refine .inr ?_
    by_contra hno
    exact hvw (volumeWeightedCheck_eq_none hv hno)

theorem CapitalFits.exact (hc : p.drawdown = some c) (hv : p.volumeWeighted = some v)
    (h : p.CapitalFits A c v qs) : p.CapitalExact A c v qs := by
  rcases h with hfast | ⟨hdd, hrest⟩
  · refine ⟨evaluate_ne_none_iff.mpr (.inl hfast), fun b => ?_, fun b => ?_⟩
    · rw [names_drawdown_iff]
      simp [hfast]
    · rw [names_volumeWeighted_iff]
      simp [hfast]
  have htrips : ∀ b, TripsIff (p.drawdownCheck (A.machine b) (.ofPairs qs)) (DrawdownHolds c qs) :=
    fun _ => drawdownCheck_of_fits hc hdd
  refine ⟨evaluate_ne_none_iff.mpr (.inr ?_), fun b => ?_, fun b => ?_⟩
  · by_cases hholds : DrawdownHolds c qs
    · exact .inl ((htrips true).trips_iff.mpr hholds)
    · refine .inr ⟨(htrips true).passes_iff.mpr hholds, ?_⟩
      exact (volumeWeightedCheck_of_fits hv (hrest.resolve_left hholds)).ne_none
  · rw [names_drawdown_iff, (htrips b).trips_iff]
  · rw [names_volumeWeighted_iff, (htrips b).passes_iff]
    by_cases hholds : DrawdownHolds c qs
    · simp [hholds]
    · rw [(volumeWeightedCheck_of_fits hv (hrest.resolve_left hholds)).trips_iff]

/-- **When the capital guards are exact.** For a policy that enables both and any history of pairs:
exactly when the sums that `evaluate` gets to form are in range. -/
theorem capitalExact_iff (hc : p.drawdown = some c) (hv : p.volumeWeighted = some v) :
    p.CapitalExact A c v qs ↔ p.CapitalFits A c v qs :=
  ⟨fun h => .of_no_overflow hc hv h.no_overflow, fun h => h.exact hc hv⟩

theorem drawdown_fifty_pos {c : DrawdownConfig} (h : some ⟨.ofInt 50, 1⟩ = some c) :
    0 < c.window := by
  cases h
  exact Nat.one_pos

theorem volumeWeighted_three_quarters_pos {v : VolumeWeightedConfig ℚ}
    (h : some ⟨3 / 4, 1⟩ = some v) : 0 < v.window := by
  cases h
  exact Nat.one_pos

/-- The shipped ratio guards with a drawdown guard on a window of one trade. -/
def drawdownPolicy : ReconcilePolicy ℚ :=
  { defaultDualGuard with
    drawdown := some ⟨.ofInt 50, 1⟩
    drawdown_pos := drawdown_fifty_pos }

/-- The same with a volume-weighted guard. -/
def capitalPolicy : ReconcilePolicy ℚ :=
  { drawdownPolicy with
    volumeWeighted := some ⟨3 / 4, 1⟩
    volumeWeighted_pos := volumeWeighted_three_quarters_pos }

/-- The pair of two numbers. -/
def pairOf (predicted realized : Int) : Pair := (⟨.ofInt predicted⟩, ⟨.ofInt realized⟩)

theorem capitalExact_trade :
    capitalPolicy.CapitalExact Arith.exact ⟨.ofInt 50, 1⟩ ⟨3 / 4, 1⟩ [pairOf 100 90] := by
  refine (capitalExact_iff rfl rfl).mpr (.inr ⟨?_, .inr ?_⟩)
  · rw [DrawdownFits]
    decide +kernel
  · rw [VolumeFits]
    decide +kernel

/-- A loss of `i128::MIN` on a prediction of 0: a build with overflow checks panics, and one without
them continues. -/
theorem not_capitalExact_min :
    capitalPolicy.evaluate (Arith.exact.machine true) (.ofPairs [pairOf 0 (-2 ^ 127)]) = none ∧
    capitalPolicy.evaluate (Arith.exact.machine false) (.ofPairs [pairOf 0 (-2 ^ 127)]) =
      some .continue ∧
    DrawdownHolds ⟨.ofInt 50, 1⟩ [pairOf 0 (-2 ^ 127)] ∧
    ¬capitalPolicy.CapitalExact Arith.exact ⟨.ofInt 50, 1⟩ ⟨3 / 4, 1⟩ [pairOf 0 (-2 ^ 127)] := by
  have hpanic : capitalPolicy.evaluate (Arith.exact.machine true)
      (.ofPairs [pairOf 0 (-2 ^ 127)]) = none := by decide +kernel
  refine ⟨hpanic, by decide +kernel, ⟨by decide, by decide +kernel⟩, fun h => ?_⟩
  exact h.no_overflow hpanic

/-! ## The drawdown guard and the high-watermark -/

/-- The highest cumulative profit, from 0 on, less the current one. -/
def peakToCurrent (qs : List Pair) : Int :=
  ((List.range (qs.length + 1)).map fun t => sumRealized (qs.take t)).foldl max 0 - sumRealized qs

/-- With a full window and no other guard tripping, the drawdown guard halts when the profit has
fallen from its peak by more than the limit. -/
def HighWatermark (p : ReconcilePolicy F) (A : Arith F) (c : DrawdownConfig) (qs : List Pair) :
    Prop :=
  (∀ g, g ≠ .drawdown → p.check A (.ofPairs qs) g = some none) → c.window ≤ qs.length →
    (p.Names A (.ofPairs qs) .drawdown ↔ c.maxDrawdownLimit.toInt < peakToCurrent qs)

/-- The guard does not look at the peak but at what the last trades fell short of their
predictions. -/
theorem names_drawdown_iff_slippage (hc : p.drawdown = some c) (hfull : c.window ≤ qs.length)
    (honly : ∀ g, g ≠ .drawdown → p.check (A.machine overflowChecks) (.ofPairs qs) g = some none)
    (hfits : DrawdownFits c qs) :
    p.Names (A.machine overflowChecks) (.ofPairs qs) .drawdown ↔
      c.maxDrawdownLimit.toInt < sumSlippage (qs.rtake c.window) := by
  have hfast : ¬p.FastHolds A qs :=
    (fastCheck_ofPairs p A qs overflowChecks).passes_iff.mp (honly .fast nofun)
  rw [names_drawdown_iff, (drawdownCheck_of_fits hc hfits).trips_iff, DrawdownHolds]
  simp [hfast, hfull]

/-- After one trade the windows of the ratio guards are not full. -/
theorem other_checks_pass (q : Pair) {g : Guard} (hg : g ≠ .drawdown) :
    drawdownPolicy.check (Arith.exact.machine true) (.ofPairs [q]) g = some none := by
  have hlen : ([q].filter positive).length ≤ 1 := List.length_filter_le _ _
  cases g with
  | drawdown => exact absurd rfl hg
  | revertBurst | revertGas | volumeWeighted => rfl
  | fast =>
    refine (fastCheck_ofPairs drawdownPolicy Arith.exact [q] true).passes_iff.mpr fun h => ?_
    have hfull : 3 ≤ ([q].filter positive).length := h.1
    omega
  | slow =>
    have hratios : ((ReconcileHistory.ofPairs [q]).recentRatios (Arith.exact.machine true)
        20).length ≤ 1 := by
      rw [ReconcileHistory.recentRatios_eq, List.length_map, length_rtake,
        ReconcileHistory.pairs_ofPairs]
      omega
    refine if_neg fun hfull => ?_
    rw [show drawdownPolicy.slow.window = 20 from rfl] at hfull
    omega

/-- A trade that brings half of what was predicted. -/
theorem names_drawdown_iff_slippage_half :
    drawdownPolicy.Names (Arith.exact.machine true) (.ofPairs [pairOf 200 100]) .drawdown := by
  have hfits : DrawdownFits ⟨.ofInt 50, 1⟩ [pairOf 200 100] := by
    rw [DrawdownFits]
    decide +kernel
  exact (names_drawdown_iff_slippage rfl (by decide) (fun _ => other_checks_pass _) hfits).mpr
    (by decide)

/-- The same trade halts at the peak of the profit; a predicted loss does not halt below it. -/
theorem not_highWatermark :
    ¬HighWatermark drawdownPolicy (Arith.exact.machine true) ⟨.ofInt 50, 1⟩ [pairOf 200 100] ∧
    ¬HighWatermark drawdownPolicy (Arith.exact.machine true) ⟨.ofInt 50, 1⟩
      [pairOf (-100) (-100)] := by
  constructor
  · intro h
    have hhalt : drawdownPolicy.evaluate (Arith.exact.machine true) (.ofPairs [pairOf 200 100]) =
        some (.halt (.netDrawdownExceeded 100 (.ofInt 50) 1)) := by decide +kernel
    have hpeak := (h (fun _ => other_checks_pass _) (by decide)).mp ⟨_, hhalt, rfl⟩
    revert hpeak
    decide
  · intro h
    have hcontinue : drawdownPolicy.evaluate (Arith.exact.machine true)
        (.ofPairs [pairOf (-100) (-100)]) = some .continue := by decide +kernel
    obtain ⟨r, hr, _⟩ := (h (fun _ => other_checks_pass _) (by decide)).mpr (by decide)
    rw [hcontinue] at hr
    cases hr

end ReconcilePolicy

end Driftbrake
