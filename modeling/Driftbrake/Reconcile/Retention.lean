import Driftbrake.Reconcile.Verdicts

/-!
# What the guards see of the last entries

A policy that is given only the last `max` operations decides as before with the guards whose
window is among them (`Retained`); the others pass (`tripsOn_rtake_iff`, `panicsOn_rtake_iff`). The
reasons of the reverts are not looked at. The results hold of every arithmetic.
-/

namespace Driftbrake

namespace HistoryEntry

/-- The entry without the reason of its revert. -/
def withoutReason : HistoryEntry → HistoryEntry
  | .confirmedPair predicted realized => .confirmedPair predicted realized
  | .revertedTx event => .revertedTx { event with reason := none }

@[simp] theorem pair?_withoutReason (e : HistoryEntry) : e.withoutReason.pair? = e.pair? := by
  cases e <;> rfl

@[simp] theorem isRevert_withoutReason (e : HistoryEntry) :
    e.withoutReason.isRevert = e.isRevert := by
  cases e <;> rfl

end HistoryEntry

open HistoryEntry (withoutReason)

variable {F : Type}

theorem pairsOf_withoutReason (ops : List HistoryEntry) :
    pairsOf (ops.map withoutReason) = pairsOf ops := by
  rw [pairsOf, List.filterMap_map, pairsOf]
  exact List.filterMap_congr fun e _ => e.pair?_withoutReason

theorem positivePairs_withoutReason (ops : List HistoryEntry) :
    positivePairs (ops.map withoutReason) = positivePairs ops := by
  rw [positivePairs, pairsOf_withoutReason, positivePairs]

theorem isRevert_rtake_withoutReason {n : Nat} (ops : List HistoryEntry) :
    (∀ e ∈ (ops.map withoutReason).rtake n, e.isRevert) ↔ ∀ e ∈ ops.rtake n, e.isRevert := by
  simp [← map_rtake]

theorem feesIn_withoutReason (A : Arith F) (ops : List HistoryEntry) :
    feesIn A (ops.map withoutReason) = feesIn A ops := by
  have hreverts : (ops.map withoutReason).reverse.filterMap (·.revert?) =
      (ops.reverse.filterMap (·.revert?)).map fun event => { event with reason := none } := by
    rw [← List.map_reverse, List.filterMap_map, List.map_filterMap]
    refine List.filterMap_congr fun e _ => ?_
    cases e <;> rfl
  rw [feesIn, hreverts, List.mapM_map]
  rfl

namespace ReconcilePolicy

variable {p : ReconcilePolicy F} {A : Arith F} {ops ops' : List HistoryEntry} {max : Nat}
  {g : Guard}

theorem tripsOn_withoutReason : p.TripsOn A (ops.map withoutReason) g ↔ p.TripsOn A ops g := by
  cases g with
  | revertBurst => simp only [TripsOn, List.length_map, isRevert_rtake_withoutReason]
  | revertGas => simp only [TripsOn, ← map_rtake, feesIn_withoutReason]
  | fast => simp only [TripsOn, positivePairs_withoutReason]
  | drawdown => simp only [TripsOn, pairsOf_withoutReason]
  | volumeWeighted => simp only [TripsOn, positivePairs_withoutReason]
  | slow => simp only [TripsOn, positivePairs_withoutReason]

theorem panicsOn_withoutReason : p.PanicsOn A (ops.map withoutReason) g ↔ p.PanicsOn A ops g := by
  cases g with
  | revertGas => simp only [PanicsOn, ← map_rtake, feesIn_withoutReason]
  | drawdown => simp only [PanicsOn, pairsOf_withoutReason]
  | volumeWeighted => simp only [PanicsOn, positivePairs_withoutReason]
  | revertBurst | fast | slow => exact Iff.rfl

theorem tripsOn_congr (h : ops.map withoutReason = ops'.map withoutReason) :
    p.TripsOn A ops g ↔ p.TripsOn A ops' g := by
  rw [← tripsOn_withoutReason, h, tripsOn_withoutReason]

theorem panicsOn_congr (h : ops.map withoutReason = ops'.map withoutReason) :
    p.PanicsOn A ops g ↔ p.PanicsOn A ops' g := by
  rw [← panicsOn_withoutReason, h, panicsOn_withoutReason]

theorem tripsAmong_congr (h : ops.map withoutReason = ops'.map withoutReason) {S : Guard → Prop} :
    p.TripsAmong A ops S ↔ p.TripsAmong A ops' S := by
  simp only [TripsAmong, tripsOn_congr h, panicsOn_congr h]

/-- No window and no limit of the policy is above `max`. -/
structure Fits (p : ReconcilePolicy F) (max : Nat) : Prop where
  fast : p.fast.window ≤ max
  slow : p.slow.window ≤ max
  revertBurst : ∀ {c}, p.revertBurst = some c → c.limit ≤ max
  revertGas : ∀ {c}, p.revertGas = some c → c.window ≤ max
  volumeWeighted : ∀ {c}, p.volumeWeighted = some c → c.window ≤ max
  drawdown : ∀ {c}, p.drawdown = some c → c.window ≤ max

/-- The last `max` operations have as many pairs of the kind that the guard counts as its window
has. The guards on reverts count the operations themselves. -/
def Retained (p : ReconcilePolicy F) (max : Nat) (ops : List HistoryEntry) : Guard → Prop
  | .revertBurst | .revertGas => True
  | .fast => p.fast.window ≤ (positivePairs (ops.rtake max)).length
  | .drawdown => ∀ c, p.drawdown = some c → c.window ≤ (pairsOf (ops.rtake max)).length
  | .volumeWeighted =>
      ∀ c, p.volumeWeighted = some c → c.window ≤ (positivePairs (ops.rtake max)).length
  | .slow => p.slow.window ≤ (positivePairs (ops.rtake max)).length

theorem not_tripsOn_nil (p : ReconcilePolicy F) (A : Arith F) (g : Guard) :
    ¬p.TripsOn A [] g := by
  cases g with
  | revertBurst =>
    rintro ⟨c, hc, hlen, _⟩
    exact absurd (p.revertBurst_pos hc) (Nat.not_lt.mpr hlen)
  | revertGas =>
    rintro ⟨c, _, burned, hburned, hlt⟩
    have hzero : feesIn A [] = some 0 := rfl
    rw [List.rtake_nil, hzero] at hburned
    cases hburned
    exact Nat.not_lt_zero _ hlt
  | fast => exact fun h => absurd p.fast_pos (Nat.not_lt.mpr h.1)
  | drawdown =>
    rintro ⟨c, hc, hlen, _⟩
    exact absurd (p.drawdown_pos hc) (Nat.not_lt.mpr hlen)
  | volumeWeighted =>
    rintro ⟨c, hc, hlen, _⟩
    exact absurd (p.volumeWeighted_pos hc) (Nat.not_lt.mpr hlen)
  | slow => exact fun h => absurd p.slow_pos (Nat.not_lt.mpr h.1)

theorem pairsOf_suffix (h : ops <:+ ops') : pairsOf ops <:+ pairsOf ops' := by
  obtain ⟨t, rfl⟩ := h
  exact ⟨pairsOf t, (List.filterMap_append ..).symm⟩

theorem positivePairs_suffix (h : ops <:+ ops') : positivePairs ops <:+ positivePairs ops' :=
  (pairsOf_suffix h).filter positive

/-- A guard that counts pairs: its condition on a suffix is its condition, if the suffix has its
window. -/
theorem enabled_suffix_iff {α β : Type} {o : Option α} {window : α → Nat} {s l : List β}
    {P : α → List β → Prop} (h : s <:+ l) :
    (∃ c, o = some c ∧ window c ≤ s.length ∧ P c (s.rtake (window c))) ↔
      (∃ c, o = some c ∧ window c ≤ l.length ∧ P c (l.rtake (window c))) ∧
        ∀ c, o = some c → window c ≤ s.length := by
  cases o with
  | none => simp
  | some c => simpa using window_suffix_iff h

/-- On the last `max` operations those guards trip that do so on all, if they have their window. -/
theorem tripsOn_rtake_iff (hp : p.Fits max) :
    p.TripsOn A (ops.rtake max) g ↔ p.TripsOn A ops g ∧ p.Retained max ops g := by
  have hs := rtake_suffix ops max
  cases g with
  | revertBurst =>
    refine Iff.trans ?_ (and_iff_left trivial).symm
    refine exists_congr fun c => and_congr_right fun hc => ?_
    rw [length_rtake, rtake_rtake (hp.revertBurst hc), Nat.le_min]
    exact and_congr_left fun _ => and_iff_right (hp.revertBurst hc)
  | revertGas =>
    refine Iff.trans ?_ (and_iff_left trivial).symm
    refine exists_congr fun c => and_congr_right fun hc => ?_
    rw [rtake_rtake (hp.revertGas hc)]
  | fast =>
    exact window_suffix_iff
      (P := fun w => ∀ q ∈ w, A.lt (ReconcileHistory.ratio A q) p.fast.threshold)
      (positivePairs_suffix hs)
  | drawdown =>
    exact enabled_suffix_iff
      (P := fun (c : DrawdownConfig) w =>
        ∃ loss, slippageIn A w = some loss ∧ c.maxDrawdownLimit.toInt < loss)
      (pairsOf_suffix hs)
  | volumeWeighted =>
    exact enabled_suffix_iff
      (P := fun (c : VolumeWeightedConfig F) w => ∃ totals, totalsIn A w = some totals ∧
        0 < totals.1 ∧ A.lt (A.div (A.ofI128 totals.2) (A.ofI128 totals.1)) c.threshold)
      (positivePairs_suffix hs)
  | slow =>
    exact window_suffix_iff
      (P := fun w => A.lt (A.div (A.sum (w.map (ReconcileHistory.ratio A)))
        (A.ofUsize p.slow.window)) p.slow.threshold)
      (positivePairs_suffix hs)

theorem panicsOn_rtake_iff (hp : p.Fits max) :
    p.PanicsOn A (ops.rtake max) g ↔ p.PanicsOn A ops g ∧ p.Retained max ops g := by
  have hs := rtake_suffix ops max
  cases g with
  | revertGas =>
    refine Iff.trans ?_ (and_iff_left trivial).symm
    refine exists_congr fun c => and_congr_right fun hc => ?_
    rw [rtake_rtake (hp.revertGas hc)]
  | drawdown =>
    exact enabled_suffix_iff (P := fun (_ : DrawdownConfig) w => slippageIn A w = none)
      (pairsOf_suffix hs)
  | volumeWeighted =>
    exact enabled_suffix_iff (P := fun (_ : VolumeWeightedConfig F) w => totalsIn A w = none)
      (positivePairs_suffix hs)
  | revertBurst | fast | slow => exact (iff_of_eq (false_and _)).symm

/-- A policy halts on the last `max` operations when a retained guard trips on all of them and no
retained guard before it panics. -/
theorem tripsAmong_rtake_iff (hp : p.Fits max) :
    p.TripsAmong A (ops.rtake max) (fun _ => True) ↔
      p.TripsAmong A ops (p.Retained max ops) := by
  simp only [TripsAmong, tripsOn_rtake_iff hp, panicsOn_rtake_iff hp, true_and, forall_const,
    not_and']
  refine exists_congr fun before => exists_congr fun g => exists_congr fun after => ?_
  rw [and_comm (a := p.TripsOn A ops g), and_assoc]

end ReconcilePolicy

end Driftbrake
