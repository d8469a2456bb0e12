import Driftbrake.Core.Types
import Driftbrake.Core.Arith
import Mathlib.Data.List.DropRight

/-!
# `ReconcileHistory`

The history keeps three views of one sequence of operations: the timeline, the pairs and the
reverts. `ofEntries` is the history after a sequence of operations, and every view of it is a
function of that sequence (`timeline_ofEntries`, `pairs_ofEntries`, `reverts_ofEntries`). The
windows the guards read are the last entries of a view (`recentRatios_eq`,
`le_consecutiveReverts_iff`).
-/

namespace Driftbrake

namespace HistoryEntry

/-- The confirmed pair of an entry. -/
def pair? : HistoryEntry → Option (PredictedProfit × RealizedProfit)
  | .confirmedPair predicted realized => some (predicted, realized)
  | .revertedTx _ => none

def revert? : HistoryEntry → Option RevertEvent
  | .confirmedPair .. => none
  | .revertedTx event => some event

def isRevert (e : HistoryEntry) : Bool := e.revert?.isSome

/-- The pair of two numbers. -/
def trade (predicted realized : Int) : HistoryEntry :=
  .confirmedPair ⟨.ofInt predicted⟩ ⟨.ofInt realized⟩

/-- A revert with the given gas figures. -/
def revert (gasUsed : UInt64) (gasPrice : Nat) : HistoryEntry :=
  .revertedTx ⟨Vector.replicate 32 0, 1, none, gasUsed, .ofNat gasPrice⟩

end HistoryEntry

structure ReconcileHistory where
  timeline : List HistoryEntry
  pairs : List (PredictedProfit × RealizedProfit)
  reverts : List RevertEvent
deriving DecidableEq, Repr

/-- `predicted.0 > 0`, the pairs the ratio guards look at. -/
def positive (pair : PredictedProfit × RealizedProfit) : Bool := decide (0 < pair.1.val.toInt)

namespace ReconcileHistory

variable {F : Type}

def new : ReconcileHistory := ⟨[], [], []⟩

def append (self : ReconcileHistory) (predicted : PredictedProfit) (realized : RealizedProfit) :
    ReconcileHistory :=
  { self with
    timeline := self.timeline ++ [.confirmedPair predicted realized]
    pairs := self.pairs ++ [(predicted, realized)] }

def recordRevert (self : ReconcileHistory) (event : RevertEvent) : ReconcileHistory :=
  { self with
    timeline := self.timeline ++ [.revertedTx event]
    reverts := self.reverts ++ [event] }

/-- The length of the run of reverts at the front of a reversed timeline. -/
def countReverts : List HistoryEntry → Nat
  | .revertedTx _ :: entries => countReverts entries + 1
  | .confirmedPair .. :: _ | [] => 0

def consecutiveReverts (self : ReconcileHistory) : Nat := countReverts self.timeline.reverse

def recentRevertGasBurned (self : ReconcileHistory) (A : Arith F) (window : Nat) : Option Nat := do
  let fees ← ((self.timeline.reverse.take window).filterMap (·.revert?)).mapM fun event =>
    A.mulU128 event.gasUsed.toNat event.effectiveGasPrice.toNat
  A.sumU128 fees

/-- `realized.0 as f64 / predicted.0 as f64`. -/
def ratio (A : Arith F) (pair : PredictedProfit × RealizedProfit) : F :=
  A.div (A.ofI128 pair.2.val.toInt) (A.ofI128 pair.1.val.toInt)

def recentRatios (self : ReconcileHistory) (A : Arith F) (n : Nat) : List F :=
  (((self.pairs.reverse.filter positive).take n).map (ratio A)).reverse

/-! ## The history after a sequence of operations -/

/-- One operation: `append` of a pair or `record_revert` of an event. -/
def apply (self : ReconcileHistory) : HistoryEntry → ReconcileHistory
  | .confirmedPair predicted realized => self.append predicted realized
  | .revertedTx event => self.recordRevert event

def ofEntries (entries : List HistoryEntry) : ReconcileHistory := entries.foldl apply new

@[simp] theorem timeline_apply (h : ReconcileHistory) (e : HistoryEntry) :
    (h.apply e).timeline = h.timeline ++ [e] := by cases e <;> rfl

theorem pairs_apply (h : ReconcileHistory) (e : HistoryEntry) :
    (h.apply e).pairs = h.pairs ++ e.pair?.toList := by
  cases e <;> simp [apply, append, recordRevert, HistoryEntry.pair?]

theorem reverts_apply (h : ReconcileHistory) (e : HistoryEntry) :
    (h.apply e).reverts = h.reverts ++ e.revert?.toList := by
  cases e <;> simp [apply, append, recordRevert, HistoryEntry.revert?]

@[simp] theorem timeline_foldl_apply (h : ReconcileHistory) (es : List HistoryEntry) :
    (es.foldl apply h).timeline = h.timeline ++ es := by
  induction es generalizing h with
  | nil => simp
  | cons e es ih => simp [ih]

theorem ofEntries_append_singleton (es : List HistoryEntry) (e : HistoryEntry) :
    ofEntries (es ++ [e]) = (ofEntries es).apply e := by
  simp [ofEntries]

theorem foldl_apply_ofEntries (es es' : List HistoryEntry) :
    es'.foldl apply (ofEntries es) = ofEntries (es ++ es') := by
  simp [ofEntries]

@[simp] theorem timeline_ofEntries (es : List HistoryEntry) : (ofEntries es).timeline = es :=
  timeline_foldl_apply new es

@[simp] theorem pairs_ofEntries (es : List HistoryEntry) :
    (ofEntries es).pairs = es.filterMap (·.pair?) := by
  induction es using List.reverseRecOn with
  | nil => rfl
  | append_singleton es e ih =>
    rw [ofEntries_append_singleton, pairs_apply, ih, List.filterMap_append]
    cases h : e.pair? <;> simp [h]

@[simp] theorem reverts_ofEntries (es : List HistoryEntry) :
    (ofEntries es).reverts = es.filterMap (·.revert?) := by
  induction es using List.reverseRecOn with
  | nil => rfl
  | append_singleton es e ih =>
    rw [ofEntries_append_singleton, reverts_apply, ih, List.filterMap_append]
    cases h : e.revert? <;> simp [h]

/-- The history of a sequence of operations, view by view: the timeline is the sequence, the pairs
and the reverts are its sub-sequences. -/
structure IsOf (h : ReconcileHistory) (es : List HistoryEntry) : Prop where
  timeline : h.timeline = es
  pairs : h.pairs = es.filterMap (·.pair?)
  reverts : h.reverts = es.filterMap (·.revert?)

theorem isOf_ofEntries (es : List HistoryEntry) : (ofEntries es).IsOf es :=
  ⟨timeline_ofEntries es, pairs_ofEntries es, reverts_ofEntries es⟩

/-! ## The windows -/

theorem recentRatios_eq (h : ReconcileHistory) (A : Arith F) (n : Nat) :
    h.recentRatios A n = ((h.pairs.filter positive).rtake n).map (ratio A) := by
  rw [recentRatios, List.rtake_eq_reverse_take_reverse, List.filter_reverse, List.map_reverse]

theorem le_countReverts_iff {es : List HistoryEntry} {n : Nat} :
    n ≤ countReverts es ↔ n ≤ es.length ∧ ∀ e ∈ es.take n, e.isRevert := by
  induction es generalizing n with
  | nil => simp [countReverts]
  | cons e es ih =>
    cases n with
    | zero => simp
    | succ n =>
      cases e with
      | confirmedPair p r => simp [countReverts, HistoryEntry.isRevert, HistoryEntry.revert?]
      | revertedTx ev => simp [countReverts, ih, HistoryEntry.isRevert, HistoryEntry.revert?]

/-- The run of reverts is at least `n` long when the last `n` entries are all reverts. -/
theorem le_consecutiveReverts_iff {h : ReconcileHistory} {n : Nat} :
    n ≤ h.consecutiveReverts ↔
      n ≤ h.timeline.length ∧ ∀ e ∈ h.timeline.rtake n, e.isRevert := by
  rw [consecutiveReverts, le_countReverts_iff, List.length_reverse,
    List.rtake_eq_reverse_take_reverse]
  simp only [List.mem_reverse]

end ReconcileHistory

end Driftbrake
