import Driftbrake.Core.Machine
import Driftbrake.Poller.Booking
import Driftbrake.Reconcile.Spec

/-!
# The revert-gas guard on the receipts of a source

The gas figures of a reverted receipt reach the guard unchecked: the poller copies them into the
history, and the guard multiplies and adds them in `u128`. Both kinds of build are exact as long as
the fees of the window sum up to less than `2 ^ 128`; beyond that one panics and the other forgets
whole multiples of `2 ^ 128`.
-/

namespace Driftbrake

variable {F : Type} {A : Arith F} {history : ReconcileHistory} {window : Nat}
  {overflowChecks : Bool}

/-- What a revert has burned. -/
def RevertEvent.fee (event : RevertEvent) : Nat :=
  event.gasUsed.toNat * event.effectiveGasPrice.toNat

theorem feesBurned_eq (es : List HistoryEntry) :
    feesBurned es = ((es.filterMap (·.revert?)).map (·.fee)).sum := rfl

theorem fee_le_sum {events : List RevertEvent} {event : RevertEvent} (h : event ∈ events) :
    event.fee ≤ (events.map (·.fee)).sum :=
  List.single_le_sum (fun _ _ => Nat.zero_le _) _ (List.mem_map_of_mem h)

namespace ReconcileHistory

theorem recentRevertGasBurned_of_lt
    (h : feesBurned (history.timeline.rtake window) < 2 ^ 128) :
    history.recentRevertGasBurned (A.machine overflowChecks) window =
      some (feesBurned (history.timeline.rtake window)) := by
  rw [feesBurned_eq] at h ⊢
  rw [recentRevertGasBurned, take_reverse_eq, List.filterMap_reverse]
  generalize (history.timeline.rtake window).filterMap (·.revert?) = events at h ⊢
  have hfees : (events.reverse.mapM fun event => (A.machine overflowChecks).mulU128
      event.gasUsed.toNat event.effectiveGasPrice.toNat) = some (events.reverse.map (·.fee)) :=
    mapM_eq_some_map fun event hevent =>
      U128.result_of_lt ((fee_le_sum (List.mem_reverse.mp hevent)).trans_lt h)
  have hsum : (events.reverse.map (·.fee)).sum = (events.map (·.fee)).sum := by
    rw [List.map_reverse, List.sum_reverse]
  rw [hfees, Option.bind_eq_bind, Option.bind_some, ← hsum]
  exact Arith.sumU128_of_lt (hsum ▸ h)

theorem recentRevertGasBurned_eq_none
    (h : 2 ^ 128 ≤ feesBurned (history.timeline.rtake window)) :
    history.recentRevertGasBurned (A.machine true) window = none := by
  rw [feesBurned_eq] at h
  rw [recentRevertGasBurned, take_reverse_eq, List.filterMap_reverse]
  generalize (history.timeline.rtake window).filterMap (·.revert?) = events at h ⊢
  by_cases hfit : ∀ event ∈ events.reverse, event.fee < 2 ^ 128
  · have hfees : (events.reverse.mapM fun event => (A.machine true).mulU128
        event.gasUsed.toNat event.effectiveGasPrice.toNat) = some (events.reverse.map (·.fee)) :=
      mapM_eq_some_map fun event hevent => U128.result_of_lt (hfit event hevent)
    rw [hfees, Option.bind_eq_bind, Option.bind_some]
    refine Arith.sumU128_eq_none ?_
    rwa [List.map_reverse, List.sum_reverse]
  · push Not at hfit
    obtain ⟨event, hevent, hout⟩ := hfit
    rw [mapM_eq_none hevent (U128.result_checked hout)]
    rfl

end ReconcileHistory

namespace ReconcilePolicy

variable {p : ReconcilePolicy F} {c : RevertGasConfig}

/-- The condition of the revert-burst guard, which is looked at first. -/
def BurstHolds (p : ReconcilePolicy F) (es : List HistoryEntry) : Prop :=
  ∃ burst, p.revertBurst = some burst ∧
    burst.limit ≤ es.length ∧ ∀ e ∈ es.rtake burst.limit, e.isRevert

theorem revertGasCheck_of_lt (hc : p.revertGas = some c)
    (h : feesBurned (history.timeline.rtake c.window) < 2 ^ 128) :
    TripsIff (p.revertGasCheck (A.machine overflowChecks) history)
      (c.budgetLimit.toNat < feesBurned (history.timeline.rtake c.window)) := by
  simp only [revertGasCheck, hc]
  rw [ReconcileHistory.recentRevertGasBurned_of_lt h]
  exact tripsIff_ite

theorem revertGasCheck_eq_none (hc : p.revertGas = some c)
    (h : 2 ^ 128 ≤ feesBurned (history.timeline.rtake c.window)) :
    p.revertGasCheck (A.machine true) history = none := by
  simp only [revertGasCheck, hc]
  rw [ReconcileHistory.recentRevertGasBurned_eq_none h]
  rfl

theorem names_revertGas_iff : p.Names A history .revertGas ↔
    ¬p.BurstHolds history.timeline ∧ ∃ r, p.revertGasCheck A history = some (some r) := by
  have horder : Guard.order =
      [.revertBurst] ++ .revertGas :: [.fast, .drawdown, .volumeWeighted, .slow] := rfl
  have hburst : TripsIff (p.revertBurstCheck history) (p.BurstHolds history.timeline) :=
    revertBurstCheck_tripsIff p history
  rw [names_iff horder, ← hburst.passes_iff]
  simp [check]

/-- Where the guard is reached no `u128` operation of it overflows, and in both kinds of build it
trips exactly when the reverts among the last entries have burned more than the budget. -/
structure RevertGasExact (p : ReconcilePolicy F) (A : Arith F) (c : RevertGasConfig)
    (history : ReconcileHistory) (es : List HistoryEntry) : Prop where
  no_overflow : ¬p.BurstHolds es → p.revertGasCheck (A.machine true) history ≠ none
  trips : ∀ overflowChecks, p.Names (A.machine overflowChecks) history .revertGas ↔
    ¬p.BurstHolds es ∧ c.budgetLimit.toNat < feesBurned (es.rtake c.window)

theorem revertGasExact_timeline_iff (history : ReconcileHistory) (hc : p.revertGas = some c) :
    p.RevertGasExact A c history history.timeline ↔
      p.BurstHolds history.timeline ∨ feesBurned (history.timeline.rtake c.window) < 2 ^ 128 := by
  constructor
  · intro h
    by_contra hno
    rw [not_or, Nat.not_lt] at hno
    exact h.no_overflow hno.1 (revertGasCheck_eq_none hc hno.2)
  · rintro (hburst | hfit)
    · refine ⟨fun hno => absurd hburst hno, fun b => ?_⟩
      rw [names_revertGas_iff]
      simp [hburst]
    · refine ⟨fun _ => (revertGasCheck_of_lt hc hfit).ne_none, fun b => ?_⟩
      rw [names_revertGas_iff, (revertGasCheck_of_lt hc hfit).trips_iff]

/-- **When the revert-gas guard is exact**, on the history that calls of the poller have booked,
whatever the source delivers: exactly when a burst of reverts halts before it or the reverts among
the last entries have burned less than `2 ^ 128`. -/
theorem revertGasExact_iff {E σ : Type} (h : Handler (PollOp E) σ) (pollChecks : Bool)
    (calls : List PollCall) (s : σ) (hc : p.revertGas = some c) :
    let r := ((pollCalls pollChecks calls .new).run h s).1
    p.RevertGasExact A c r.2 (settledEntries calls r.1) ↔
      p.BurstHolds (settledEntries calls r.1) ∨
        feesBurned ((settledEntries calls r.1).rtake c.window) < 2 ^ 128 := by
  intro r
  have hbooked : r.2 = .ofEntries (settledEntries calls r.1) :=
    pollCalls_history h pollChecks calls .new s
  have hiff := revertGasExact_timeline_iff (A := A) r.2 hc
  rwa [hbooked, ReconcileHistory.timeline_ofEntries, ← hbooked] at hiff

/-- A source that delivers some receipts one after the other, for contracts without a profit
event. -/
def receiptScript : Handler (PollOp Unit) (List TxReceipt) where
  step
    | .now, s => (0, s)
    | .getReceipt _, s => (.ok (s.head?.map (·, [])), s.tail)
    | .decodeRealized .., s => (.error .missingProfitEvent, s)
    | .sleep _, s => ((), s)

def revertedReceipt (gasUsed : UInt64) (gasPrice : Nat) : TxReceipt :=
  ⟨Vector.replicate 32 0, 1, .reverted, gasUsed, .ofNat gasPrice⟩

def mainnetPoller : PollerConfig where
  blockTimeMs := 12000
  pollIntervalFraction := 1 / 2
  confirmationTimeoutBlocks := 10
  blockTimeMs_pos := by decide
  fraction_pos := by norm_num
  fraction_le := by norm_num
  timeoutBlocks_pos := by decide

def pollOnce : PollCall := ⟨mainnetPoller, Vector.replicate 32 0, ⟨.ofInt 100⟩, 1⟩

/-- The shipped ratio guards with a gas budget for the last three entries. -/
def gasPolicy : ReconcilePolicy ℚ :=
  { defaultDualGuard with
    revertGas := some ⟨.ofNat 1000000, 3⟩
    revertGas_pos := by rintro _ ⟨⟩; exact Nat.succ_pos 2 }

theorem revertGasExact_plain_revert :
    let r := ((pollCalls true [pollOnce] .new).run receiptScript [revertedReceipt 21000 30]).1
    gasPolicy.RevertGasExact Arith.exact ⟨.ofNat 1000000, 3⟩ r.2 (settledEntries [pollOnce] r.1) :=
  (revertGasExact_iff receiptScript true [pollOnce] [revertedReceipt 21000 30] rfl).mpr
    (.inr (by decide +kernel))

/-- Two units of gas at a price of `2 ^ 127`: the fee is `2 ^ 128`. A build with overflow checks
panics, and one without them finds nothing burned. -/
theorem not_revertGasExact_huge_price :
    let r := ((pollCalls true [pollOnce] .new).run receiptScript [revertedReceipt 2 (2 ^ 127)]).1
    gasPolicy.evaluate (Arith.exact.machine true) r.2 = none ∧
    gasPolicy.evaluate (Arith.exact.machine false) r.2 = some .continue ∧
    feesBurned (settledEntries [pollOnce] r.1) = 2 ^ 128 ∧
    ¬gasPolicy.RevertGasExact Arith.exact ⟨.ofNat 1000000, 3⟩ r.2
      (settledEntries [pollOnce] r.1) := by
  intro r
  have hcheck : gasPolicy.revertGasCheck (Arith.exact.machine true) r.2 = none := by
    decide +kernel
  refine ⟨by decide +kernel, by decide +kernel, by decide +kernel, fun h => ?_⟩
  refine h.no_overflow (fun ⟨burst, hburst, _⟩ => ?_) hcheck
  cases hburst

end ReconcilePolicy

end Driftbrake
