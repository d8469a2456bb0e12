import Driftbrake.Lib.Prog
import Driftbrake.Core.History
import Mathlib.Algebra.Order.Floor.Ring
import Mathlib.Data.Rat.Floor

/-!
# `ReceiptPoller`

What the poller asks of its surroundings (the clock, the receipt source, the decoder, the sleep)
are the operations `PollOp`; the history is the only thing it changes itself and is passed along.
A source script, a decoder or a clock is a handler of these operations, with any state of its own.

The loop of the source has no bound, so `pollLoop` takes a number of polls after which the call is
still `polling`. That is also what a caller that drops the future after so many polls sees.
-/

namespace Driftbrake

/-- `Duration::from_millis`, in nanoseconds. -/
def fromMillis (ms : Nat) : Nat := ms * 1000000

/-- The accepted values of `PollerConfig`; `f64` is read as an exact rational. -/
structure PollerConfig where
  blockTimeMs : UInt64
  pollIntervalFraction : ℚ
  confirmationTimeoutBlocks : UInt64
  blockTimeMs_pos : 0 < blockTimeMs
  fraction_pos : 0 < pollIntervalFraction
  fraction_le : pollIntervalFraction ≤ 1
  timeoutBlocks_pos : 0 < confirmationTimeoutBlocks

namespace PollerConfig

/-- `none` is a failed assertion. -/
def new (blockTimeMs : UInt64) (pollIntervalFraction : ℚ) (confirmationTimeoutBlocks : UInt64) :
    Option PollerConfig :=
  if h : 0 < blockTimeMs ∧ (0 < pollIntervalFraction ∧ pollIntervalFraction ≤ 1) ∧
      0 < confirmationTimeoutBlocks then
    some ⟨blockTimeMs, pollIntervalFraction, confirmationTimeoutBlocks, h.1, h.2.1.1, h.2.1.2,
      h.2.2⟩
  else none

def pollInterval (self : PollerConfig) : Nat :=
  fromMillis ⌊(self.blockTimeMs.toNat : ℚ) * self.pollIntervalFraction⌋₊

/-- The product is one of `u64`: with overflow checks it panics (`none`) where it does not fit,
without them it wraps. -/
def timeout (self : PollerConfig) (overflowChecks : Bool) : Option Nat :=
  let ms := self.blockTimeMs.toNat * self.confirmationTimeoutBlocks.toNat
  if overflowChecks && decide (2 ^ 64 ≤ ms) then none else some (fromMillis (ms % 2 ^ 64))

end PollerConfig

/-- The operations of the poller: `Instant::now`, `ReceiptSource::get_receipt` with its error type
`E`, `RealizedProfitDecoder::decode_realized` and `tokio::time::sleep`. Times are in nanoseconds. -/
inductive PollOp (E : Type) : Type → Type
  | now : PollOp E Nat
  | getReceipt (txHash : TxHash) : PollOp E (Except E (Option (TxReceipt × List Log)))
  | decodeRealized (receipt : TxReceipt) (logs : List Log) :
      PollOp E (Except DecodeError RealizedProfit)
  | sleep (duration : Nat) : PollOp E Unit

inductive PollOutcome
  | realized (realized : RealizedProfit)
  | reverted (event : RevertEvent)
  | decodeFailed (error : DecodeError)
  | timedOut
deriving DecidableEq, Repr

inductive PollError (E : Type)
  | source (error : E)

/-- What has become of a call. -/
inductive PollResult (E : Type)
  | returned (result : Except (PollError E) PollOutcome)
  | polling
  | panicked

variable {E : Type}

open Prog (perform)

/-- The arm of the loop for a receipt that has arrived. -/
def settle (txHash : TxHash) (predicted : PredictedProfit) (receipt : TxReceipt) (logs : List Log)
    (history : ReconcileHistory) : Prog (PollOp E) (PollOutcome × ReconcileHistory) :=
  match receipt.status with
  | .reverted =>
    let event : RevertEvent := {
      txHash
      blockNumber := receipt.blockNumber
      reason := none
      gasUsed := receipt.gasUsed
      effectiveGasPrice := receipt.effectiveGasPrice }
    pure (.reverted event, history.recordRevert event)
  | .confirmed => do
    match ← perform (.decodeRealized receipt logs) with
    | .ok realized => pure (.realized realized, history.append predicted realized)
    | .error decodeErr => pure (.decodeFailed decodeErr, history)

/-- The loop of `poll_until_settled`, for at most `polls` iterations. -/
def pollLoop (config : PollerConfig) (deadline : Nat) (txHash : TxHash)
    (predicted : PredictedProfit) (history : ReconcileHistory) :
    Nat → Prog (PollOp E) (PollResult E × ReconcileHistory)
  | 0 => pure (.polling, history)
  | polls + 1 => do
    match ← perform (.getReceipt txHash) with
    | .error error => pure (.returned (.error (.source error)), history)
    | .ok (some (receipt, logs)) =>
      let (outcome, history) ← settle txHash predicted receipt logs history
      pure (.returned (.ok outcome), history)
    | .ok none =>
      if deadline ≤ (← perform .now) then
        pure (.returned (.ok .timedOut), history)
      else do
        perform (.sleep config.pollInterval)
        pollLoop config deadline txHash predicted history polls

/-- One call, with the poller it is made on. -/
structure PollCall where
  config : PollerConfig
  txHash : TxHash
  predicted : PredictedProfit
  /-- The number of polls the call is given to settle. -/
  polls : Nat

def pollUntilSettled (overflowChecks : Bool) (call : PollCall) (history : ReconcileHistory) :
    Prog (PollOp E) (PollResult E × ReconcileHistory) := do
  let start ← perform .now
  match call.config.timeout overflowChecks with
  | none => pure (.panicked, history)
  | some timeout =>
    pollLoop call.config (start + timeout) call.txHash call.predicted history call.polls

/-- Calls one after the other on one history; the results are in call order. -/
def pollCalls (overflowChecks : Bool) :
    List PollCall → ReconcileHistory → Prog (PollOp E) (List (PollResult E) × ReconcileHistory)
  | [], history => pure ([], history)
  | call :: calls, history => do
    let (result, history) ← pollUntilSettled overflowChecks call history
    let (results, history) ← pollCalls overflowChecks calls history
    pure (result :: results, history)

end Driftbrake
