import Driftbrake.Poller.Poller

/-!
# What the poller books

`Books` says what one call has done, in terms of the events of its run: which entry it added for
its result, where the data of that entry came from, and what the decoder was called on. It holds of
every call, whatever source, decoder and clock answer it.
-/

namespace Driftbrake

open Prog (Event)

variable {E : Type} {txHash : TxHash} {predicted : PredictedProfit}
  {history history' : ReconcileHistory} {log log' : List (Event (PollOp E))}
  {result : PollResult E}

/-- The entry that an outcome stands for in the history. -/
def PollOutcome.entry? (predicted : PredictedProfit) : PollOutcome → Option HistoryEntry
  | .realized profit => some (.confirmedPair predicted profit)
  | .reverted event => some (.revertedTx event)
  | .decodeFailed _ | .timedOut => none

def PollResult.entry? (predicted : PredictedProfit) : PollResult E → Option HistoryEntry
  | .returned (.ok outcome) => outcome.entry? predicted
  | .returned (.error _) | .polling | .panicked => none

/-- A receipt that the source delivered. -/
def delivery? : Event (PollOp E) → Option (TxHash × TxReceipt × List Log)
  | ⟨.getReceipt txHash, .ok (some (receipt, logs))⟩ => some (txHash, receipt, logs)
  | _ => none

/-- A call of the decoder, with what it returned. -/
def decode? : Event (PollOp E) → Option ((TxReceipt × List Log) × Except DecodeError RealizedProfit)
  | ⟨.decodeRealized receipt logs, result⟩ => some ((receipt, logs), result)
  | _ => none

def deliveries (log : List (Event (PollOp E))) : List (TxHash × TxReceipt × List Log) :=
  log.filterMap delivery?

def decodes (log : List (Event (PollOp E))) :
    List ((TxReceipt × List Log) × Except DecodeError RealizedProfit) :=
  log.filterMap decode?

/-- The revert event of a receipt for the requested transaction. -/
def revertOf (txHash : TxHash) (receipt : TxReceipt) : RevertEvent where
  txHash := txHash
  blockNumber := receipt.blockNumber
  reason := none
  gasUsed := receipt.gasUsed
  effectiveGasPrice := receipt.effectiveGasPrice

/-- What a call with the events `log` and the given result has made of `history`. -/
structure Books (txHash : TxHash) (predicted : PredictedProfit)
    (history history' : ReconcileHistory) (log : List (Event (PollOp E)))
    (result : PollResult E) : Prop where
  /-- At most one entry is added: the one of the result. -/
  booked : history' = (result.entry? predicted).toList.foldl ReconcileHistory.apply history
  /-- A booked profit is what the decoder made of a confirmed receipt. -/
  realized : ∀ {profit}, result = .returned (.ok (.realized profit)) →
    ∃ receipt logs, (txHash, receipt, logs) ∈ deliveries log ∧ receipt.status = .confirmed ∧
      ((receipt, logs), .ok profit) ∈ decodes log
  /-- A booked revert carries the requested hash and the data of a reverted receipt. -/
  reverted : ∀ {event}, result = .returned (.ok (.reverted event)) →
    ∃ receipt logs, (txHash, receipt, logs) ∈ deliveries log ∧ receipt.status = .reverted ∧
      event = revertOf txHash receipt
  /-- The decoder is only called on a confirmed receipt that the source delivered. -/
  gated : ∀ {receipt logs decoded}, ((receipt, logs), decoded) ∈ decodes log →
    receipt.status = .confirmed ∧ (txHash, receipt, logs) ∈ deliveries log
  once : (decodes log).length ≤ 1

/-- The events of a poll that brought no receipt. -/
def Idle (log : List (Event (PollOp E))) : Prop := deliveries log = [] ∧ decodes log = []

namespace Books

/-- A call that ends without a receipt books nothing. -/
theorem of_idle (hlog : Idle log) (hresult : result.entry? predicted = none) :
    Books txHash predicted history history log result where
  booked := by rw [hresult]; rfl
  realized h := by subst h; cases hresult
  reverted h := by subst h; cases hresult
  gated h := by rw [hlog.2] at h; cases h
  once := by rw [hlog.2]; exact Nat.zero_le _

/-- Polls without a receipt in front of a call change nothing of what it books. -/
theorem idle_append (hlog : Idle log) (H : Books txHash predicted history history' log' result) :
    Books txHash predicted history history' (log ++ log') result := by
  have hdel : deliveries (log ++ log') = deliveries log' := by
    simp only [deliveries, List.filterMap_append]
    exact congrArg (· ++ _) hlog.1
  have hdec : decodes (log ++ log') = decodes log' := by
    simp only [decodes, List.filterMap_append]
    exact congrArg (· ++ _) hlog.2
  constructor
  · exact H.booked
  · rw [hdel, hdec]; exact H.realized
  · rw [hdel]; exact H.reverted
  · rw [hdel, hdec]; exact H.gated
  · rw [hdec]; exact H.once

end Books

variable {σ : Type} (h : Handler (PollOp E) σ)

/-! ## One call -/

/-- The arm for a receipt books that receipt. -/
theorem settle_books (txHash : TxHash) (predicted : PredictedProfit) (receipt : TxReceipt)
    (logs : List Log) (history : ReconcileHistory) (s : σ) :
    let r := (settle txHash predicted receipt logs history).run h s
    Books txHash predicted history r.1.2
      (⟨.getReceipt txHash, .ok (some (receipt, logs))⟩ ::
        (settle txHash predicted receipt logs history).trace h s)
      (.returned (.ok r.1.1) : PollResult E) := by
  cases hstatus : receipt.status with
  | reverted =>
    simp only [settle, hstatus, Prog.run_pure, Prog.trace_pure]
    constructor
    · rfl
    · rintro profit ⟨⟩
    · rintro event ⟨⟩
      exact ⟨receipt, logs, .head _, hstatus, rfl⟩
    · rintro receipt logs decoded ⟨⟩
    · exact Nat.zero_le _
  | confirmed =>
    simp only [settle, hstatus, Prog.run_bind, Prog.run_perform, Prog.trace_bind,
      Prog.trace_perform]
    cases hdec : (h (.decodeRealized receipt logs) s).1 with
    | ok profit =>
      constructor
      · rfl
      · rintro _ ⟨⟩
        exact ⟨receipt, logs, .head _, hstatus, .head _⟩
      · rintro event ⟨⟩
      · rintro receipt logs decoded hd
        cases List.mem_singleton.mp hd
        exact ⟨hstatus, .head _⟩
      · exact Nat.le_refl 1
    | error e =>
      constructor
      · rfl
      · rintro profit ⟨⟩
      · rintro event ⟨⟩
      · rintro receipt logs decoded hd
        cases List.mem_singleton.mp hd
        exact ⟨hstatus, .head _⟩
      · exact Nat.le_refl 1

/-- By induction on the polls: those before the last one are idle. -/
theorem pollLoop_books (config : PollerConfig) (deadline : Nat) (txHash : TxHash)
    (predicted : PredictedProfit) (history : ReconcileHistory) (polls : Nat) (s : σ) :
    let p := pollLoop config deadline txHash predicted history polls
    Books txHash predicted history (p.run h s).1.2 (p.trace h s) (p.run h s).1.1 := by
  induction polls generalizing s with
  | zero => exact .of_idle ⟨rfl, rfl⟩ rfl
  | succ polls ih =>
    simp only [pollLoop, Prog.run_bind, Prog.run_perform, Prog.trace_bind, Prog.trace_perform]
    cases hreply : (h (.getReceipt txHash) s).1 with
    | error e => exact .of_idle ⟨rfl, rfl⟩ rfl
    | ok found =>
      cases found with
      | some found =>
        have H := settle_books h txHash predicted found.1 found.2 history
          (h (.getReceipt txHash) s).2
        simpa using H
      | none =>
        rw [Prog.run_bind, Prog.trace_bind]
        refine Books.idle_append ⟨rfl, rfl⟩ (Books.idle_append ⟨rfl, rfl⟩ ?_)
        generalize (Prog.perform .now).run h (h (.getReceipt txHash) s).2 = now
        by_cases hlate : deadline ≤ now.1
        · rw [if_pos hlate]
          exact .of_idle ⟨rfl, rfl⟩ rfl
        · rw [if_neg hlate, Prog.run_bind, Prog.trace_bind]
          exact Books.idle_append ⟨rfl, rfl⟩ (ih _)

theorem pollUntilSettled_books (overflowChecks : Bool) (call : PollCall)
    (history : ReconcileHistory) (s : σ) :
    let p := pollUntilSettled overflowChecks call history
    Books call.txHash call.predicted history (p.run h s).1.2 (p.trace h s) (p.run h s).1.1 := by
  simp only [pollUntilSettled, Prog.run_bind, Prog.run_perform, Prog.trace_bind,
    Prog.trace_perform]
  refine Books.idle_append ⟨rfl, rfl⟩ ?_
  cases call.config.timeout overflowChecks with
  | none => exact .of_idle ⟨rfl, rfl⟩ rfl
  | some timeout => exact pollLoop_books h ..

/-! ## Any sequence of calls -/

/-- The entries of the outcomes of some calls. -/
def settledEntries (calls : List PollCall) (results : List (PollResult E)) : List HistoryEntry :=
  (calls.zip results).filterMap fun (call, result) => result.entry? call.predicted

theorem settledEntries_cons (call : PollCall) (calls : List PollCall) (result : PollResult E)
    (results : List (PollResult E)) :
    settledEntries (call :: calls) (result :: results) =
      (result.entry? call.predicted).toList ++ settledEntries calls results := by
  cases h : result.entry? call.predicted <;> simp [settledEntries, h]

theorem pollCalls_history (overflowChecks : Bool) (calls : List PollCall)
    (history : ReconcileHistory) (s : σ) :
    let r := ((pollCalls overflowChecks calls history).run h s).1
    r.2 = (settledEntries calls r.1).foldl ReconcileHistory.apply history := by
  induction calls generalizing history s with
  | nil => rfl
  | cons call calls ih =>
    have hbooked := (pollUntilSettled_books h overflowChecks call history s).booked
    simp only [pollCalls, Prog.run_bind, Prog.run_pure]
    generalize (pollUntilSettled overflowChecks call history).run h s = first at hbooked ⊢
    obtain ⟨⟨result, history'⟩, s'⟩ := first
    rw [settledEntries_cons, List.foldl_append, ← hbooked]
    exact ih history' s'

theorem pollCalls_length (overflowChecks : Bool) (calls : List PollCall)
    (history : ReconcileHistory) (s : σ) :
    ((pollCalls overflowChecks calls history).run h s).1.1.length = calls.length := by
  induction calls generalizing history s with
  | nil => rfl
  | cons call calls ih =>
    simp only [pollCalls, Prog.run_bind, Prog.run_pure, List.length_cons]
    rw [ih]

/-- **Booking is gated by the receipt and done exactly once.** Every call on every history books
as `Books` says, and the entries that any sequence of calls adds to a history are the settled
outcomes of the calls, in call order. -/
theorem poll_books_settled_outcomes (overflowChecks : Bool) :
    (∀ (call : PollCall) (history : ReconcileHistory) (s : σ),
      let p := pollUntilSettled overflowChecks call history
      Books call.txHash call.predicted history (p.run h s).1.2 (p.trace h s) (p.run h s).1.1) ∧
    ∀ (calls : List PollCall) (history : ReconcileHistory) (s : σ),
      let r := ((pollCalls overflowChecks calls history).run h s).1
      r.1.length = calls.length ∧
      r.2 = (settledEntries calls r.1).foldl ReconcileHistory.apply history ∧
      r.2.timeline = history.timeline ++ settledEntries calls r.1 := by
  refine ⟨pollUntilSettled_books h overflowChecks, fun calls history s => ?_⟩
  have hfinal := pollCalls_history h overflowChecks calls history s
  refine ⟨pollCalls_length h overflowChecks calls history s, hfinal, ?_⟩
  rw [hfinal, ReconcileHistory.timeline_foldl_apply]

end Driftbrake
