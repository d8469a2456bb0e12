import Driftbrake.Reconcile.Spec

/-!
# What the guards do not see

The ratio guards read the pairs with `predicted > 0` and nothing else, so reverts and non-positive
predictions can be put anywhere into a sequence of operations without a trace in the decision of a
policy that has only those guards. The result is about every arithmetic.
-/

namespace Driftbrake

/-- An operation the ratio guards do not see: a revert, or a pair with `predicted <= 0`. -/
def Blind : HistoryEntry → Prop
  | .confirmedPair predicted _ => predicted.val.toInt ≤ 0
  | .revertedTx _ => True

/-- `ops'` is `ops` with blind operations inserted at any positions. -/
inductive Inserts : List HistoryEntry → List HistoryEntry → Prop
  | nil : Inserts [] []
  | keep : Inserts ops ops' → Inserts (e :: ops) (e :: ops')
  | insert : Blind e → Inserts ops ops' → Inserts ops (e :: ops')

theorem positivePairs_eq (ops : List HistoryEntry) :
    positivePairs ops = ops.filterMap fun e => e.pair?.filter positive :=
  List.filter_filterMap

@[simp] theorem positivePairs_append (ops ops' : List HistoryEntry) :
    positivePairs (ops ++ ops') = positivePairs ops ++ positivePairs ops' := by
  simp [positivePairs_eq]

theorem positivePairs_cons_of_blind (h : Blind e) :
    positivePairs (e :: ops) = positivePairs ops := by
  cases e with
  | revertedTx event => rfl
  | confirmedPair predicted realized =>
    have hn : positive (predicted, realized) = false := decide_eq_false (Int.not_lt.mpr h)
    rw [positivePairs_eq, positivePairs_eq, List.filterMap_cons_none]
    simp [HistoryEntry.pair?, hn]

theorem Inserts.positivePairs (H : Inserts ops ops') :
    positivePairs ops = positivePairs ops' := by
  induction H with
  | nil => rfl
  | @keep ops ops' e _ ih =>
    rw [← List.singleton_append, positivePairs_append, ih, ← positivePairs_append,
      List.singleton_append]
  | insert h _ ih => rw [ih, positivePairs_cons_of_blind h]

namespace ReconcilePolicy

variable {F : Type} {p : ReconcilePolicy F} {A : Arith F} {history history' : ReconcileHistory}

/-- A policy with no guards but the ratio guards decides by the pairs with `predicted > 0`. -/
theorem evaluate_congr_of_ratio_guards (hb : p.revertBurst = none) (hg : p.revertGas = none)
    (hd : p.drawdown = none)
    (h : history.pairs.filter positive = history'.pairs.filter positive) :
    p.evaluate A history = p.evaluate A history' := by
  apply evaluate_congr
  intro g
  cases g with
  | revertBurst => simp [check, revertBurstCheck, hb]
  | revertGas => exact revertGasCheck_congr (by simp [hg])
  | fast => exact fastCheck_congr (by rw [h])
  | drawdown => exact drawdownCheck_congr (by simp [hd])
  | volumeWeighted => exact volumeWeightedCheck_congr fun _ _ => by rw [h]
  | slow => exact slowCheck_congr (by rw [h])

/-- **The ratio guards are blind to reverts and to non-positive predictions**: inserting any number
of them at any positions changes neither the decision nor the payload of its reason. -/
theorem evaluate_inserts (hb : p.revertBurst = none) (hg : p.revertGas = none)
    (hd : p.drawdown = none) (H : Inserts ops ops') :
    p.evaluate A (.ofEntries ops) = p.evaluate A (.ofEntries ops') := by
  apply evaluate_congr_of_ratio_guards hb hg hd
  rw [ReconcileHistory.pairs_ofEntries, ReconcileHistory.pairs_ofEntries]
  exact H.positivePairs

/-- A revert before three bad trades and a negative prediction after them. -/
theorem evaluate_inserts_bad_trades :
    defaultDualGuard.evaluate Arith.exact
      (.ofEntries [.trade 100 10, .trade 100 10, .trade 100 10]) =
    defaultDualGuard.evaluate Arith.exact (.ofEntries
      [.revert 21000 30, .trade 100 10, .trade 100 10, .trade 100 10, .trade (-5) 999999]) :=
  have hneg : Blind (.trade (-5) 999999) := show (I128.ofInt (-5)).toInt ≤ 0 by decide
  evaluate_inserts rfl rfl rfl (.insert trivial (.keep (.keep (.keep (.insert hneg .nil)))))

end ReconcilePolicy

end Driftbrake
