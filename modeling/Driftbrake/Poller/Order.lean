import Driftbrake.Poller.Booking
import Driftbrake.Poller.Deadline
import Driftbrake.Lib.Windows

/-!
# The order of the history

The history is meant to be in confirmation order, but a call appends when it settles. The chain
assigns a receipt to every transaction; `stampedEntries` puts the block of its receipt beside every
entry that some calls have booked. The blocks ascend in all runs exactly when the transactions are
polled in the order of their blocks (`inConfirmationOrder_iff`).
-/

namespace Driftbrake

variable {E σ : Type} {order : List TxHash} {calls : List PollCall}
  {results : List (PollResult E)}

/-- What the chain makes of every transaction. -/
abbrev Chain := TxHash → TxReceipt × List Log

/-- The block in which the chain confirms a transaction. -/
def Chain.block (chain : Chain) (txHash : TxHash) : UInt64 := (chain txHash).1.blockNumber

/-- A source of this chain: it may be late or fail, but its receipts are those of the chain. -/
def Follows (h : Handler (PollOp E) σ) (chain : Chain) : Prop :=
  ∀ txHash s found, (h (.getReceipt txHash) s).1 = .ok (some found) → found = chain txHash

/-- The entries of the outcomes of some calls, with the blocks of their receipts. -/
def stampedEntries (chain : Chain) (calls : List PollCall) (results : List (PollResult E)) :
    List (HistoryEntry × UInt64) :=
  (calls.zip results).filterMap fun (call, result) =>
    (result.entry? call.predicted).map fun entry => (entry, chain.block call.txHash)

theorem map_fst_stampedEntries (chain : Chain) (calls : List PollCall)
    (results : List (PollResult E)) :
    (stampedEntries chain calls results).map Prod.fst = settledEntries calls results := by
  rw [stampedEntries, settledEntries, List.map_filterMap]
  refine List.filterMap_congr fun x _ => ?_
  rw [Option.map_map]
  exact congrFun Option.map_id _

theorem stampedEntries_cons (chain : Chain) (call : PollCall) (calls : List PollCall)
    (result : PollResult E) (results : List (PollResult E)) :
    stampedEntries chain (call :: calls) (result :: results) =
      ((result.entry? call.predicted).map fun entry => (entry, chain.block call.txHash)).toList ++
        stampedEntries chain calls results := by
  cases h : result.entry? call.predicted <;> simp [stampedEntries, h]

/-- The blocks of the booked entries are those of some of the calls, in call order. -/
theorem map_snd_stampedEntries_sublist (chain : Chain) (calls : List PollCall)
    (results : List (PollResult E)) :
    ((stampedEntries chain calls results).map Prod.snd).Sublist
      (calls.map fun call => chain.block call.txHash) := by
  induction calls generalizing results with
  | nil => exact List.nil_sublist _
  | cons call calls ih =>
    cases results with
    | nil => exact List.nil_sublist _
    | cons result results =>
      rw [stampedEntries_cons, List.map_append, List.map_cons]
      cases result.entry? call.predicted with
      | none => exact (ih results).cons _
      | some entry => exact (ih results).cons_cons _

section
variable {h : Handler (PollOp E) σ} {chain : Chain}

theorem eq_of_mem_deliveries (hchain : Follows h chain) {α : Type} {p : Prog (PollOp E) α} {s : σ}
    {txHash : TxHash} {receipt : TxReceipt} {logs : List Log}
    (hmem : (txHash, receipt, logs) ∈ deliveries (p.trace h s)) :
    (receipt, logs) = chain txHash := by
  obtain ⟨event, hevent, hdelivery⟩ := List.mem_filterMap.mp hmem
  obtain ⟨s', hs'⟩ := Prog.exists_of_mem_trace h hevent
  obtain ⟨op, value⟩ := event
  rw [delivery?.eq_def] at hdelivery
  split at hdelivery
  next hash receipt' logs' heq =>
    cases heq
    cases hdelivery
    exact hchain txHash s' _ hs'.symm
  · cases hdelivery

/-- A booked revert carries the block of its receipt. -/
theorem block_of_reverted (hchain : Follows h chain) {overflowChecks : Bool} {call : PollCall}
    {history : ReconcileHistory} {s : σ} {event : RevertEvent}
    (hresult : ((pollUntilSettled overflowChecks call history).run h s).1.1 =
      .returned (.ok (.reverted event))) : event.blockNumber = chain.block call.txHash := by
  obtain ⟨receipt, logs, hmem, _, rfl⟩ :=
    (pollUntilSettled_books h overflowChecks call history s).reverted hresult
  rw [Chain.block, ← eq_of_mem_deliveries hchain hmem]
  rfl

theorem block_of_mem_stampedEntries (hchain : Follows h chain) (overflowChecks : Bool)
    (calls : List PollCall) (history : ReconcileHistory) (s : σ) {event : RevertEvent}
    {block : UInt64}
    (hmem : (.revertedTx event, block) ∈ stampedEntries chain calls
      ((pollCalls overflowChecks calls history).run h s).1.1) : event.blockNumber = block := by
  induction calls generalizing history s with
  | nil => cases hmem
  | cons call calls ih =>
    simp only [pollCalls, Prog.run_bind, Prog.run_pure] at hmem
    rw [stampedEntries_cons, List.mem_append, Option.mem_toList,
      Option.map_eq_some_iff] at hmem
    rcases hmem with ⟨entry, hentry, heq⟩ | hmem
    · cases heq
      have hreverted : ((pollUntilSettled overflowChecks call history).run h s).1.1 =
          .returned (.ok (.reverted event)) := by
        revert hentry
        rcases ((pollUntilSettled overflowChecks call history).run h s).1.1 with
          (error | (profit | event' | error | _)) | _ | _
        all_goals intro hentry; cases hentry
        rfl
      exact block_of_reverted hchain hreverted
    · exact ih _ _ hmem

end

/-- The transactions are polled in the given order, in any way: in every run of such calls on a new
history, over any source of the chain, the entries are in the order of the blocks of their receipts,
and the last entries, however many, are the latest confirmations. -/
def InConfirmationOrder (chain : Chain) (order : List TxHash) : Prop :=
  ∀ {E σ : Type} (h : Handler (PollOp E) σ), Follows h chain → ∀ overflowChecks calls,
    calls.map (·.txHash) = order → ∀ s,
    let r := ((pollCalls overflowChecks calls .new).run h s).1
    let stamped := stampedEntries chain calls r.1
    (r.2.timeline = stamped.map Prod.fst ∧
      ∀ event block, (.revertedTx event, block) ∈ stamped → event.blockNumber = block) ∧
    stamped.Pairwise (fun x y => x.2 ≤ y.2) ∧
    ∀ n, ∀ x ∈ stamped.take (stamped.length - n), ∀ y ∈ stamped.rtake n, x.2 ≤ y.2

theorem inConfirmationOrder_of_sorted {chain : Chain}
    (H : (order.map chain.block).Pairwise (· ≤ ·)) : InConfirmationOrder chain order := by
  intro E σ h hchain overflowChecks calls hcalls s r stamped
  have hsorted : stamped.Pairwise (fun x y => x.2 ≤ y.2) := by
    rw [← hcalls, List.map_map] at H
    exact List.pairwise_map.mp (H.sublist (map_snd_stampedEntries_sublist chain calls r.1))
  refine ⟨⟨?_, fun event block hmem => ?_⟩, hsorted, fun n x hx y hy => ?_⟩
  · rw [map_fst_stampedEntries]
    have hbooked := pollCalls_history h overflowChecks calls .new s
    exact (congrArg ReconcileHistory.timeline hbooked).trans
      (ReconcileHistory.timeline_foldl_apply .new _)
  · exact block_of_mem_stampedEntries hchain overflowChecks calls .new s hmem
  · rw [← List.take_append_drop (stamped.length - n) stamped] at hsorted
    exact (List.pairwise_append.mp hsorted).2.2 x hx y hy

/-! ## A prompt source -/

/-- A source that has every receipt at once, with a decoder that finds a profit of zero. -/
def promptSource (chain : Chain) : Handler (PollOp Unit) Unit where
  step
    | .now, s => (0, s)
    | .getReceipt txHash, s => (.ok (some (chain txHash)), s)
    | .decodeRealized .., s => (.ok ⟨.ofInt 0⟩, s)
    | .sleep _, s => ((), s)

theorem follows_promptSource (chain : Chain) : Follows (promptSource chain) chain := by
  rintro txHash s found ⟨⟩
  rfl

/-- One poll each. -/
def promptCalls (order : List TxHash) : List PollCall :=
  order.map fun txHash => ⟨tenPolls, txHash, ⟨.ofInt 100⟩, 1⟩

theorem promptCall_settles (chain : Chain) (txHash : TxHash) (history : ReconcileHistory)
    (s : Unit) :
    ∃ entry, PollResult.entry? ⟨.ofInt 100⟩
      ((pollUntilSettled false ⟨tenPolls, txHash, ⟨.ofInt 100⟩, 1⟩ history).run
        (promptSource chain) s).1.1 = some entry := by
  have htimeout : tenPolls.timeout false = some (fromMillis 500) := by decide
  have hreply : ((promptSource chain) (.getReceipt txHash) s).1 = .ok (some (chain txHash)) := rfl
  simp only [pollUntilSettled, Prog.run_bind, htimeout]
  rw [run_pollLoop_some (promptSource chain) hreply]
  cases hstatus : (chain txHash).1.status with
  | reverted => exact ⟨_, by rw [settle, hstatus]; rfl⟩
  | confirmed => exact ⟨_, by rw [settle, hstatus]; rfl⟩

/-- By induction on the calls: each of them books an entry. -/
theorem stamps_of_promptCalls (chain : Chain) (order : List TxHash) (history : ReconcileHistory)
    (s : Unit) :
    (stampedEntries chain (promptCalls order)
      ((pollCalls false (promptCalls order) history).run (promptSource chain) s).1.1).map Prod.snd =
        order.map chain.block := by
  induction order generalizing history s with
  | nil => rfl
  | cons txHash order ih =>
    obtain ⟨entry, hentry⟩ := promptCall_settles chain txHash history s
    rw [promptCalls, List.map_cons, ← promptCalls, List.map_cons]
    simp only [pollCalls, Prog.run_bind, Prog.run_pure]
    rw [stampedEntries_cons, hentry, List.map_append]
    exact congrArg _ (ih _ _)

theorem sorted_of_inConfirmationOrder {chain : Chain} (H : InConfirmationOrder chain order) :
    (order.map chain.block).Pairwise (· ≤ ·) := by
  have hcalls : (promptCalls order).map (·.txHash) = order := by
    rw [promptCalls, List.map_map]
    exact List.map_id order
  obtain ⟨_, hsorted, _⟩ :=
    H (promptSource chain) (follows_promptSource chain) false (promptCalls order) hcalls ()
  rw [← stamps_of_promptCalls chain order .new ()]
  exact List.pairwise_map.mpr hsorted

/-- **When the history is in confirmation order.** For every assignment of blocks and every order of
polling: in all runs, over every source of the chain, if and only if the transactions are polled in
the order of their blocks. -/
theorem inConfirmationOrder_iff (chain : Chain) (order : List TxHash) :
    InConfirmationOrder chain order ↔ (order.map chain.block).Pairwise (· ≤ ·) :=
  ⟨sorted_of_inConfirmationOrder, inConfirmationOrder_of_sorted⟩

/-- Two transactions: the one submitted first is confirmed in block 101, the other one reverted in
block 100. -/
def swappedChain : Chain := fun txHash =>
  if txHash = Vector.replicate 32 1 then (⟨txHash, 101, .confirmed, 21000, .ofNat 30⟩, [])
  else (⟨txHash, 100, .reverted, 21000, .ofNat 30⟩, [])

/-- Polled in the order of submission, the revert comes last: one consecutive revert is counted
although the latest confirmation succeeded. -/
theorem not_inConfirmationOrder_swapped :
    (¬∀ chain order, InConfirmationOrder chain order) ∧
    ((pollCalls false (promptCalls [.replicate 32 1, .replicate 32 2]) .new).run
      (promptSource swappedChain) ()).1.2.consecutiveReverts = 1 ∧
    ((pollCalls false (promptCalls [.replicate 32 2, .replicate 32 1]) .new).run
      (promptSource swappedChain) ()).1.2.consecutiveReverts = 0 := by
  refine ⟨fun H => ?_, by decide, by decide⟩
  have hsorted := sorted_of_inConfirmationOrder
    (H swappedChain [.replicate 32 1, .replicate 32 2])
  exact absurd hsorted (by decide)

end Driftbrake
