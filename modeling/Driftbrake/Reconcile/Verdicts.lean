import Driftbrake.Reconcile.Policy
import Driftbrake.Lib.Windows

/-!
# What the guards decide in any arithmetic

`TripsOn p A ops g` and `PanicsOn p A ops g` say of a sequence of operations when the check of the
guard `g` trips and when it panics, in the arithmetic `A`: over wrapping or checked integers, with
any rounding of the ratios. Three of the guards sum integers, latest first, and no other guard
panics. `evaluate` halts exactly when a guard trips and none before it in the order of evaluation
panics (`halts_iff_tripsAmong`).
-/

namespace Driftbrake

abbrev Pair := PredictedProfit × RealizedProfit

namespace Pair

def predicted (q : Pair) : Int := q.1.val.toInt

def realized (q : Pair) : Int := q.2.val.toInt

end Pair

/-! ## The views of a sequence of operations -/

/-- The pairs among a sequence of operations. -/
def pairsOf (ops : List HistoryEntry) : List Pair := ops.filterMap (·.pair?)

/-- The pairs with `predicted > 0`. -/
def positivePairs (ops : List HistoryEntry) : List Pair := (pairsOf ops).filter positive

/-! ## The sums of a window -/

variable {F : Type}

/-- What the reverts among some operations have burned. -/
def feesIn (A : Arith F) (ops : List HistoryEntry) : Option Nat := do
  let fees ← (ops.reverse.filterMap (·.revert?)).mapM fun event =>
    A.mulU128 event.gasUsed.toNat event.effectiveGasPrice.toNat
  A.sumU128 fees

def slippageIn (A : Arith F) (qs : List Pair) : Option Int := do
  let losses ← qs.reverse.mapM fun q => A.subI128 q.predicted q.realized
  A.sumI128 losses

/-- The predicted and the realized total of some pairs. -/
def totalsIn (A : Arith F) (qs : List Pair) : Option (Int × Int) := do
  let totalPredicted ← A.sumI128 (qs.reverse.map (·.predicted))
  let totalRealized ← A.sumI128 (qs.reverse.map (·.realized))
  some (totalPredicted, totalRealized)

namespace ReconcilePolicy

/-- The condition on which a guard trips; a guard that is not enabled has none. -/
def TripsOn (p : ReconcilePolicy F) (A : Arith F) (ops : List HistoryEntry) : Guard → Prop
  | .revertBurst => ∃ c, p.revertBurst = some c ∧
      c.limit ≤ ops.length ∧ ∀ e ∈ ops.rtake c.limit, e.isRevert
  | .revertGas => ∃ c, p.revertGas = some c ∧
      ∃ burned, feesIn A (ops.rtake c.window) = some burned ∧ c.budgetLimit.toNat < burned
  | .fast =>
      p.fast.window ≤ (positivePairs ops).length ∧
      ∀ q ∈ (positivePairs ops).rtake p.fast.window,
        A.lt (ReconcileHistory.ratio A q) p.fast.threshold
  | .drawdown => ∃ c, p.drawdown = some c ∧
      c.window ≤ (pairsOf ops).length ∧
      ∃ loss, slippageIn A ((pairsOf ops).rtake c.window) = some loss ∧
        c.maxDrawdownLimit.toInt < loss
  | .volumeWeighted => ∃ c, p.volumeWeighted = some c ∧
      c.window ≤ (positivePairs ops).length ∧
      ∃ totals, totalsIn A ((positivePairs ops).rtake c.window) = some totals ∧
        0 < totals.1 ∧ A.lt (A.div (A.ofI128 totals.2) (A.ofI128 totals.1)) c.threshold
  | .slow =>
      p.slow.window ≤ (positivePairs ops).length ∧
      A.lt (A.div
        (A.sum (((positivePairs ops).rtake p.slow.window).map (ReconcileHistory.ratio A)))
        (A.ofUsize p.slow.window)) p.slow.threshold

/-- The condition on which a guard panics: a sum of its window does. -/
def PanicsOn (p : ReconcilePolicy F) (A : Arith F) (ops : List HistoryEntry) : Guard → Prop
  | .revertGas => ∃ c, p.revertGas = some c ∧ feesIn A (ops.rtake c.window) = none
  | .drawdown => ∃ c, p.drawdown = some c ∧
      c.window ≤ (pairsOf ops).length ∧ slippageIn A ((pairsOf ops).rtake c.window) = none
  | .volumeWeighted => ∃ c, p.volumeWeighted = some c ∧
      c.window ≤ (positivePairs ops).length ∧
      totalsIn A ((positivePairs ops).rtake c.window) = none
  | .revertBurst | .fast | .slow => False

/-- A guard of `S` trips, and no guard of `S` before it in the order of evaluation panics. -/
def TripsAmong (p : ReconcilePolicy F) (A : Arith F) (ops : List HistoryEntry)
    (S : Guard → Prop) : Prop :=
  ∃ before g after, Guard.order = before ++ g :: after ∧ S g ∧ p.TripsOn A ops g ∧
    ∀ g' ∈ before, S g' → ¬p.PanicsOn A ops g'

/-! ## The checks -/

/-- A check that trips where `T` holds, panics where `N` does and passes elsewhere. -/
structure Outcome (result : Option (Option (HaltReason F))) (T N : Prop) : Prop where
  trips_iff : (∃ r, result = some (some r)) ↔ T
  panics_iff : result = none ↔ N

section
variable {result : Option (Option (HaltReason F))} {T N : Prop}

theorem TripsIff.outcome (H : TripsIff result T) : Outcome result T False :=
  ⟨H.trips_iff, iff_false_intro H.ne_none⟩

/-- A check that computes a sum first panics where the sum does. -/
theorem TripsIff.bind {α : Type} {x : Option α} {f : α → Option (Option (HaltReason F))}
    {T : α → Prop} (H : ∀ a, TripsIff (f a) (T a)) :
    Outcome (x.bind f) (∃ a, x = some a ∧ T a) (x = none) := by
  cases x with
  | none => exact ⟨by simp, by simp⟩
  | some a => exact ⟨by simpa using (H a).trips_iff, by simpa using (H a).ne_none⟩

theorem outcome_disabled {α : Type} {o : Option α} {T N : α → Prop} (h : o = none) :
    Outcome (some none : Option (Option (HaltReason F))) (∃ c, o = some c ∧ T c)
      (∃ c, o = some c ∧ N c) :=
  ⟨by simp [h], by simp [h]⟩

theorem Outcome.tripsIff (H : Outcome result T N) (hN : ¬N) : TripsIff result T := by
  rcases result with _ | _ | r
  · exact absurd (H.panics_iff.mp rfl) hN
  · exact .inl ⟨rfl, fun hT => by simpa using H.trips_iff.mpr hT⟩
  · exact .inr ⟨r, rfl, H.trips_iff.mp ⟨r, rfl⟩⟩

theorem Outcome.enabled {α : Type} {o : Option α} {c : α} {T N : α → Prop} (h : o = some c)
    (H : Outcome result (T c) (N c)) :
    Outcome result (∃ c, o = some c ∧ T c) (∃ c, o = some c ∧ N c) :=
  ⟨H.trips_iff.trans (by simp [h]), H.panics_iff.trans (by simp [h])⟩

theorem tripsIff_guarded {P : Prop} [Decidable P] (H : TripsIff result T) :
    TripsIff (if P then result else some none) (P ∧ T) := by
  by_cases h : P
  · rw [if_pos h]
    exact H.congr (and_iff_right h).symm
  · rw [if_neg h]
    exact .inl ⟨rfl, fun hP => h hP.1⟩

/-- A check that passes while its window is not full. -/
theorem Outcome.window {α : Type} {l : List α} {n : Nat} (H : Outcome result T N) :
    Outcome (if (l.reverse.take n).length = n then result else some none) (n ≤ l.length ∧ T)
      (n ≤ l.length ∧ N) := by
  have hlen : (l.reverse.take n).length = n ↔ n ≤ l.length := by simp
  by_cases h : n ≤ l.length
  · rw [if_pos (hlen.mpr h)]
    exact ⟨H.trips_iff.trans (and_iff_right h).symm, H.panics_iff.trans (and_iff_right h).symm⟩
  · rw [if_neg (mt hlen.mp h)]
    exact ⟨by simp [h], by simp [h]⟩

end

variable {p : ReconcilePolicy F} {A : Arith F} {ops : List HistoryEntry}

theorem revertGasCheck_outcome (p : ReconcilePolicy F) (A : Arith F) (ops : List HistoryEntry) :
    Outcome (p.revertGasCheck A (.ofEntries ops)) (p.TripsOn A ops .revertGas)
      (p.PanicsOn A ops .revertGas) := by
  unfold revertGasCheck
  split
  next h => exact outcome_disabled h
  next gasCfg h =>
    refine Outcome.enabled h ?_
    have hburned : (ReconcileHistory.ofEntries ops).recentRevertGasBurned A gasCfg.window =
        feesIn A (ops.rtake gasCfg.window) := by
      rw [ReconcileHistory.recentRevertGasBurned, ReconcileHistory.timeline_ofEntries,
        take_reverse_eq, feesIn]
    rw [hburned]
    exact TripsIff.bind fun _ => tripsIff_ite

theorem recentRatios_ofEntries (A : Arith F) (ops : List HistoryEntry) (n : Nat) :
    (ReconcileHistory.ofEntries ops).recentRatios A n =
      ((positivePairs ops).rtake n).map (ReconcileHistory.ratio A) := by
  rw [ReconcileHistory.recentRatios_eq, ReconcileHistory.pairs_ofEntries]
  rfl

theorem fastCheck_outcome (p : ReconcilePolicy F) (A : Arith F) (ops : List HistoryEntry) :
    TripsIff (p.fastCheck A (.ofEntries ops)) (p.TripsOn A ops .fast) := by
  unfold fastCheck
  refine tripsIff_ite.congr ?_
  rw [recentRatios_ofEntries, List.length_map, length_rtake]
  simp [TripsOn]

theorem drawdownCheck_outcome (p : ReconcilePolicy F) (A : Arith F) (ops : List HistoryEntry) :
    Outcome (p.drawdownCheck A (.ofEntries ops)) (p.TripsOn A ops .drawdown)
      (p.PanicsOn A ops .drawdown) := by
  unfold drawdownCheck
  split
  next h => exact outcome_disabled h
  next ddCfg h =>
    refine Outcome.enabled h ?_
    rw [ReconcileHistory.pairs_ofEntries]
    refine Outcome.window ?_
    rw [take_reverse_eq, ← bind_assoc]
    exact TripsIff.bind fun _ => tripsIff_ite

theorem volumeWeightedCheck_outcome (p : ReconcilePolicy F) (A : Arith F)
    (ops : List HistoryEntry) :
    Outcome (p.volumeWeightedCheck A (.ofEntries ops)) (p.TripsOn A ops .volumeWeighted)
      (p.PanicsOn A ops .volumeWeighted) := by
  unfold volumeWeightedCheck
  split
  next h => exact outcome_disabled h
  next vwCfg h =>
    refine Outcome.enabled h ?_
    rw [ReconcileHistory.pairs_ofEntries, List.filter_reverse]
    refine Outcome.window ?_
    rw [take_reverse_eq]
    have H := TripsIff.bind (x := totalsIn A ((positivePairs ops).rtake vwCfg.window))
      fun totals => tripsIff_guarded (P := 0 < totals.1)
        (tripsIff_ite
          (P := A.lt (A.div (A.ofI128 totals.2) (A.ofI128 totals.1)) vwCfg.threshold)
          (r := .volumeWeightedDrift (A.div (A.ofI128 totals.2) (A.ofI128 totals.1))
            vwCfg.threshold vwCfg.window))
    simp only [totalsIn, Option.bind_eq_bind, Option.bind_assoc, Option.bind_some] at H
    exact H

theorem slowCheck_outcome (p : ReconcilePolicy F) (A : Arith F) (ops : List HistoryEntry) :
    TripsIff (p.slowCheck A (.ofEntries ops)) (p.TripsOn A ops .slow) := by
  unfold slowCheck
  have hlen : ((ReconcileHistory.ofEntries ops).recentRatios A p.slow.window).length =
      min p.slow.window (positivePairs ops).length := by
    rw [recentRatios_ofEntries, List.length_map, length_rtake]
  simp only [hlen]
  by_cases h : p.slow.window ≤ (positivePairs ops).length
  · rw [min_eq_left h, if_pos rfl, recentRatios_ofEntries]
    refine tripsIff_ite.congr ?_
    simp [TripsOn, h]
  · rw [if_neg (by omega)]
    exact .inl ⟨rfl, fun hc => h hc.1⟩

theorem check_outcome (p : ReconcilePolicy F) (A : Arith F) (ops : List HistoryEntry)
    (g : Guard) :
    Outcome (p.check A (.ofEntries ops) g) (p.TripsOn A ops g) (p.PanicsOn A ops g) := by
  cases g with
  | revertBurst =>
    have H := (revertBurstCheck_tripsIff p (.ofEntries ops)).outcome
    rw [ReconcileHistory.timeline_ofEntries] at H
    exact H
  | revertGas => exact revertGasCheck_outcome p A ops
  | fast => exact (fastCheck_outcome p A ops).outcome
  | drawdown => exact drawdownCheck_outcome p A ops
  | volumeWeighted => exact volumeWeightedCheck_outcome p A ops
  | slow => exact (slowCheck_outcome p A ops).outcome

/-! ## `evaluate` -/

/-- The search halts when a check trips and none before it panics: the first such check decides. -/
theorem firstHalt_halts_iff {check : Guard → Option (Option (HaltReason F))}
    {guards : List Guard} :
    (∃ r, firstHalt check guards = some (.halt r)) ↔
      ∃ before g after, guards = before ++ g :: after ∧ (∃ r, check g = some (some r)) ∧
        ∀ g' ∈ before, check g' ≠ none := by
  constructor
  · rintro ⟨r, h⟩
    obtain ⟨before, g, after, hsplit, hg, hpass⟩ := firstHalt_eq_halt h
    refine ⟨before, g, after, hsplit, ⟨r, hg⟩, fun g' hg' hnone => ?_⟩
    rw [hpass g' hg'] at hnone
    cases hnone
  · rintro ⟨before, g, after, rfl, ⟨r, hg⟩, hpass⟩
    induction before with
    | nil => exact ⟨r, by simp [firstHalt, hg]⟩
    | cons b before ih =>
      rw [List.forall_mem_cons] at hpass
      obtain ⟨r', hr'⟩ := ih hpass.2
      rw [List.cons_append, firstHalt]
      rcases hb : check b with _ | _ | rb
      · exact absurd hb hpass.1
      · exact ⟨r', hr'⟩
      · exact ⟨rb, rfl⟩

theorem halts_iff_tripsAmong (p : ReconcilePolicy F) (A : Arith F) (ops : List HistoryEntry) :
    p.Halts A (.ofEntries ops) ↔ p.TripsAmong A ops fun _ => True := by
  refine firstHalt_halts_iff.trans ?_
  simp only [TripsAmong, (check_outcome p A ops _).trips_iff, ne_eq,
    (check_outcome p A ops _).panics_iff, true_and, forall_const]

/-- Where no sum of a window panics, `evaluate` returns. -/
theorem exists_evaluate (h : ∀ g, ¬p.PanicsOn A ops g) :
    ∃ d, p.evaluate A (.ofEntries ops) = some d := by
  unfold evaluate
  induction Guard.order with
  | nil => exact ⟨_, rfl⟩
  | cons g gs ih =>
    rcases (check_outcome p A ops g).tripsIff (h g) with ⟨hg, _⟩ | ⟨r, hg, _⟩
    · simpa [firstHalt, hg] using ih
    · exact ⟨.halt r, by simp [firstHalt, hg]⟩

theorem halts_iff_exists_tripsOn (h : ∀ g, ¬p.PanicsOn A ops g) :
    p.Halts A (.ofEntries ops) ↔ ∃ g, p.TripsOn A ops g := by
  rw [halts_iff_tripsAmong]
  constructor
  · rintro ⟨_, g, _, _, _, hg, _⟩
    exact ⟨g, hg⟩
  · rintro ⟨g, hg⟩
    obtain ⟨before, after, horder⟩ := List.append_of_mem (Guard.mem_order g)
    exact ⟨before, g, after, horder, trivial, hg, fun g' _ _ => h g'⟩

end ReconcilePolicy

end Driftbrake
