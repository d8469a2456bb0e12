import Driftbrake.Trading.Rounds

/-!
# Sessions

A `Session` is what a run of the trading loop should be: one trade after the other, each submitted
for a profitable simulation of the same call with the next nonce, and only when the trade before it
has settled. `tradingLoop_session` says that every run is one, whatever the simulator, the network
and the clock reply. What follows is read off sessions: the nonces (`tradingLoop_nonces`) and where
the entries of the history come from (`tradingLoop_history`).
-/

namespace Driftbrake

namespace Trading

open Prog (Event Does Split)

variable {F E σ : Type}

/-- The events, the trades and the state of the loop after some complete trades. -/
inductive Session (setup : Setup F) (start : Bot) :
    List (Event (LoopOp E)) → List (Trade E) → Bot → Prop
  | start : Session setup start [] [] start
  | quiet : Session setup start tr ts bot → (∀ e ∈ es, Quiet e) →
      Session setup start (tr ++ es) ts bot
  | trade (t : Trade E) : Session setup start tr ts bot → (∀ t ∈ ts, t.Settled) →
      (setup.overflowChecks → bot.nonce ≠ .ofNat (2 ^ 64 - 1)) →
      t.Booked bot.history history →
      Session setup start (tr ++ t.events setup bot.nonce) (ts ++ [t]) ⟨bot.nonce + 1, history⟩

/-- A session that has come to an end: all trades have settled, but for the last one, or one more
submission has been refused. -/
inductive Ended (setup : Setup F) (start : Bot) (tr : List (Event (LoopOp E))) (bot : Bot) :
    List (Trade E) → Prop
  | traded : Session setup start tr ts bot → Ended setup start tr bot ts
  | refused (offer : Offer) (reply : Except E TxHash) : Session setup start tr' ts bot →
      (∀ t ∈ ts, t.Settled) → tr = tr' ++ offer.events setup bot.nonce reply →
      Ended setup start tr bot ts

/-- A session between two rounds. -/
def Going (setup : Setup F) (start : Bot) (tr : List (Event (LoopOp E))) (bot : Bot)
    (ts : List (Trade E)) : Prop :=
  Session setup start tr ts bot ∧ ∀ t ∈ ts, t.Settled

variable {A : PoolArith F} {setup : Setup F} {polls : Nat} {start bot bot' : Bot}
  {es tr : List (Event (LoopOp E))} {ts : List (Trade E)} {exit : Exit F E}

theorem Decides.settled {t : Trade E} (H : Decides A setup t bot (.ok bot')) :
    bot' = bot ∧ t.Settled := by
  cases H with
  | unrealized hsettled => exact ⟨rfl, hsettled⟩
  | passes hrealized =>
    obtain ⟨profit, hprofit⟩ := hrealized
    exact ⟨rfl, _, hprofit⟩

theorem Decides.bot_of_error {t : Trade E} (H : Decides A setup t bot (.error exit)) :
    exit.bot = bot := by
  cases H <;> rfl

/-- A round keeps a session going or ends it. -/
theorem Round.session {result : Except (Exit F E) Bot}
    (hgoing : Going setup start tr bot ts) (H : Round A setup bot es result) :
    Split (fun tr bot => ∃ ts, Going setup start tr bot ts)
      (fun tr exit => ∃ ts, Ended setup start tr exit.bot ts) (tr ++ es) result := by
  obtain ⟨hsession, hsettled⟩ := hgoing
  cases H with
  | idle hes => exact ⟨ts, hsession.quiet hes, hsettled⟩
  | broken hes => exact ⟨ts, .traded (hsession.quiet hes)⟩
  | refused offer reply hes hwhy =>
    exact ⟨ts, .refused offer reply (hsession.quiet hes) hsettled (List.append_assoc ..).symm⟩
  | @traded es es' history result t hes hes' hnonce hbooks hdecides =>
    have htrade := (Session.trade t (hsession.quiet hes) hsettled hnonce hbooks).quiet hes'
    rw [List.append_assoc, List.append_assoc, ← List.append_assoc es] at htrade
    cases result with
    | ok bot' =>
      obtain ⟨rfl, ht⟩ := hdecides.settled
      refine ⟨ts ++ [t], htrade, ?_⟩
      rw [List.forall_mem_append, List.forall_mem_singleton]
      exact ⟨hsettled, ht⟩
    | error exit => exact ⟨ts ++ [t], .traded (hdecides.bot_of_error ▸ htrade)⟩

/-! ## The submissions of a session -/

def submission? : Event (LoopOp E) → Option (UnsignedTx × Except E TxHash)
  | ⟨.submit tx, reply⟩ => some (tx, reply)
  | _ => none

def submissions (tr : List (Event (LoopOp E))) : List (UnsignedTx × Except E TxHash) :=
  tr.filterMap submission?

theorem submission?_of_quiet {e : Event (LoopOp E)} (h : Quiet e) : submission? e = none := by
  obtain ⟨op, value⟩ := e
  cases op with
  | submit tx => exact h.elim
  | _ => rfl

theorem submission?_embed (e : Event (PollOp E)) : submission? (e.embed LoopOp.ofPoll) = none := by
  obtain ⟨op, value⟩ := e
  cases op <;> rfl

theorem submissions_quiet (h : ∀ e ∈ es, Quiet e) : submissions es = [] :=
  List.filterMap_eq_nil_iff.mpr fun e he => submission?_of_quiet (h e he)

theorem submissions_embed (polled : List (Event (PollOp E))) :
    submissions (polled.map (Event.embed LoopOp.ofPoll)) = [] := by
  rw [submissions, List.filterMap_map]
  exact List.filterMap_eq_nil_iff.mpr fun e _ => submission?_embed e

theorem submissions_append (tr es : List (Event (LoopOp E))) :
    submissions (tr ++ es) = submissions tr ++ submissions es := List.filterMap_append

theorem submissions_offer (offer : Offer) (nonce : UInt64) (reply : Except E TxHash) :
    submissions (offer.events setup nonce reply) = [(offer.tx setup nonce, reply)] := rfl

theorem submissions_trade (t : Trade E) (nonce : UInt64) :
    submissions (t.events setup nonce) = [(t.tx setup nonce, .ok t.txHash)] := by
  rw [Trade.events, submissions_append, submissions_embed, List.append_nil, submissions_offer]

/-- The nonces from `nonce` on. -/
def nonces (nonce : UInt64) (n : Nat) : List UInt64 :=
  (List.range n).map fun i => nonce + .ofNat i

theorem nonces_succ (nonce : UInt64) (n : Nat) :
    nonces nonce (n + 1) = nonces nonce n ++ [nonce + .ofNat n] := by
  simp [nonces, List.range_succ]

theorem Session.nonces (H : Session setup start tr ts bot) :
    bot.nonce = start.nonce + .ofNat ts.length ∧
      (submissions tr).map (·.1.nonce) = nonces start.nonce ts.length := by
  induction H with
  | start => simp [Trading.nonces, submissions]
  | quiet H hes ih => rw [submissions_append, submissions_quiet hes, List.append_nil]; exact ih
  | trade t H hsettled hnonce hbooks ih =>
    obtain ⟨hbot, hsubs⟩ := ih
    rw [submissions_append, submissions_trade, List.map_append, hsubs, List.length_append,
      List.length_singleton, nonces_succ, ← hbot]
    refine ⟨?_, rfl⟩
    rw [hbot, UInt64.ofNat_add, UInt64.add_assoc]
    rfl

/-- With overflow checks the nonce has not wrapped. -/
theorem Session.nonce_lt (hchecks : setup.overflowChecks = true)
    (H : Session setup start tr ts bot) : start.nonce.toNat + ts.length = bot.nonce.toNat := by
  induction H with
  | start => rfl
  | quiet _ _ ih => exact ih
  | @trade tr ts bot history t H hsettled hnonce hbooks ih =>
    have hlt := bot.nonce.toNat_lt
    have hne : bot.nonce.toNat ≠ 2 ^ 64 - 1 := by
      intro hmax
      apply hnonce hchecks
      rw [← hmax, UInt64.ofNat_toNat]
    have hone : (1 : UInt64).toNat = 1 := rfl
    rw [List.length_append, List.length_singleton, UInt64.toNat_add, hone]
    omega

/-- A submission that was refused has the nonce of the next trade. -/
theorem Ended.nonces (H : Ended setup start tr bot ts) :
    (submissions tr).map (·.1.nonce) = Trading.nonces start.nonce (submissions tr).length ∧
      (setup.overflowChecks = true → start.nonce.toNat + (submissions tr).length ≤ 2 ^ 64) := by
  cases H with
  | traded H =>
    have hsubs := H.nonces.2
    have hlen := congrArg List.length hsubs
    simp only [List.length_map, Trading.nonces, List.length_range] at hlen
    refine ⟨by rw [hlen]; exact hsubs, fun hchecks => ?_⟩
    have hlt := bot.nonce.toNat_lt
    have hsum := H.nonce_lt hchecks
    omega
  | @refused tr' ts offer reply H hsettled htr =>
    obtain ⟨hbot, hsubs⟩ := H.nonces
    have hlen := congrArg List.length hsubs
    simp only [List.length_map, Trading.nonces, List.length_range] at hlen
    rw [htr, submissions_append, submissions_offer, List.map_append, hsubs, List.length_append,
      hlen, List.length_singleton, nonces_succ, ← hbot]
    refine ⟨rfl, fun hchecks => ?_⟩
    have hlt := bot.nonce.toNat_lt
    have hsum := H.nonce_lt hchecks
    omega

theorem map_toNat_nonces {nonce : UInt64} {n : Nat} (h : nonce.toNat + n ≤ 2 ^ 64) :
    (nonces nonce n).map UInt64.toNat = List.range' nonce.toNat n := by
  induction n with
  | zero => rfl
  | succ n ih =>
    have hn : (UInt64.ofNat n).toNat = n := UInt64.toNat_ofNat_of_lt' (by show n < 2 ^ 64; omega)
    rw [nonces_succ, List.map_append, ih (by omega), List.range'_concat, List.map_singleton,
      UInt64.toNat_add, hn, Nat.mod_eq_of_lt (by omega), Nat.one_mul]

/-! ## What stands in front of a submission -/

def IsSubmission (e : Event (LoopOp E)) : Prop := (submission? e).isSome

/-- The simulation of a call that is submitted, with a positive profit in its output. -/
def Approves (setup : Setup F) (simulation submission : Event (LoopOp E)) : Prop :=
  ∃ (offer : Offer) (nonce : UInt64) (reply : Except E TxHash),
    simulation = ⟨.simulate (arbTx setup offer.buyPool offer.sellPool), .ok offer.raw⟩ ∧
    submission = ⟨.submit (offer.tx setup nonce), reply⟩

theorem preceded_quiet (h : ∀ e ∈ es, Quiet e) :
    Prog.Preceded IsSubmission (Approves setup) es := by
  apply Prog.preceded_of_forall
  intro e he hsub
  rw [IsSubmission, submission?_of_quiet (h e he)] at hsub
  cases hsub

theorem preceded_offer (offer : Offer) (nonce : UInt64) (reply : Except E TxHash) :
    Prog.Preceded IsSubmission (Approves setup) (offer.events setup nonce reply) :=
  Prog.preceded_pair (by simp [IsSubmission, submission?]) ⟨offer, nonce, reply, rfl, rfl⟩

theorem preceded_trade (t : Trade E) (nonce : UInt64) :
    Prog.Preceded IsSubmission (Approves setup) (t.events setup nonce) := by
  apply (preceded_offer t.toOffer nonce (.ok t.txHash)).append
  apply Prog.preceded_of_forall
  intro e he hsub
  obtain ⟨e', -, rfl⟩ := List.mem_map.mp he
  rw [IsSubmission, submission?_embed] at hsub
  cases hsub

theorem Session.preceded (H : Session setup start tr ts bot) :
    Prog.Preceded IsSubmission (Approves setup) tr := by
  induction H with
  | start => exact Prog.preceded_of_forall (by simp)
  | quiet _ hes ih => exact ih.append (preceded_quiet hes)
  | trade t _ _ _ _ ih => exact ih.append (preceded_trade t _)

theorem Ended.preceded (H : Ended setup start tr bot ts) :
    Prog.Preceded IsSubmission (Approves setup) tr := by
  cases H with
  | traded H => exact H.preceded
  | refused offer reply H _ htr =>
    rw [htr]
    exact H.preceded.append (preceded_offer offer _ reply)

/-! ## The history of a session -/

theorem Session.history (H : Session setup start tr ts bot) :
    bot.history = (ts.filterMap Trade.entry?).foldl ReconcileHistory.apply start.history := by
  induction H with
  | start => rfl
  | quiet _ _ ih => exact ih
  | @trade tr ts bot history t H hsettled hnonce hbooks ih =>
    have hbooked : history = t.entry?.toList.foldl ReconcileHistory.apply bot.history :=
      hbooks.booked
    rw [List.filterMap_append, List.foldl_append, ← ih, hbooked]
    cases h : t.entry? <;> simp [h]

/-- The events of every trade are in the trace, and its poll books as the poller does. -/
theorem Session.mem (H : Session setup start tr ts bot) {t : Trade E} (ht : t ∈ ts) :
    ∃ (nonce : UInt64) (history history' : ReconcileHistory),
      (∀ e ∈ t.events setup nonce, e ∈ tr) ∧
        t.Booked history history' := by
  induction H with
  | start => cases ht
  | quiet _ _ ih =>
    obtain ⟨nonce, history, history', hmem, hbooks⟩ := ih ht
    exact ⟨nonce, history, history', fun e he => List.mem_append_left _ (hmem e he), hbooks⟩
  | @trade tr ts bot final t' H hsettled hnonce hfinal ih =>
    rcases List.mem_append.mp ht with ht | ht
    · obtain ⟨nonce, history, history', hmem, hbooks⟩ := ih ht
      exact ⟨nonce, history, history', fun e he => List.mem_append_left _ (hmem e he), hbooks⟩
    · cases List.mem_singleton.mp ht
      exact ⟨bot.nonce, _, _, fun e he => List.mem_append_right _ he, hfinal⟩

theorem Ended.session (H : Ended setup start tr bot ts) :
    ∃ tr', tr' <+: tr ∧ Session setup start tr' ts bot := by
  cases H with
  | traded H => exact ⟨tr, List.prefix_refl tr, H⟩
  | refused offer reply H _ htr => exact ⟨_, ⟨_, htr.symm⟩, H⟩

theorem mem_of_mem_deliveries {log : List (Event (PollOp E))} {txHash : TxHash}
    {receipt : TxReceipt} {logs : List Log} (h : (txHash, receipt, logs) ∈ deliveries log) :
    ⟨.getReceipt txHash, .ok (some (receipt, logs))⟩ ∈ log := by
  obtain ⟨⟨op, value⟩, hmem, he⟩ := List.mem_filterMap.mp h
  cases op with
  | getReceipt txHash' =>
    rcases value with e | _ | ⟨receipt', logs'⟩
    · cases he
    · cases he
    · cases he
      exact hmem
  | _ => cases he

theorem mem_of_mem_decodes {log : List (Event (PollOp E))} {receipt : TxReceipt} {logs : List Log}
    {decoded : Except DecodeError RealizedProfit} (h : ((receipt, logs), decoded) ∈ decodes log) :
    ⟨.decodeRealized receipt logs, decoded⟩ ∈ log := by
  obtain ⟨⟨op, value⟩, hmem, he⟩ := List.mem_filterMap.mp h
  cases op with
  | decodeRealized receipt' logs' =>
    cases he
    exact hmem
  | _ => cases he

/-- Where an entry of the history comes from: a submission that got the hash `txHash` after a
profitable simulation, and a receipt that the source delivered for this hash. -/
def Attested (setup : Setup F) (tr : List (Event (LoopOp E))) (entry : HistoryEntry) : Prop :=
  ∃ (offer : Offer) (nonce : UInt64) (txHash : TxHash) (receipt : TxReceipt) (logs : List Log),
    (∀ e ∈ offer.events setup nonce (.ok txHash), e ∈ tr) ∧
    ⟨.getReceipt txHash, .ok (some (receipt, logs))⟩ ∈ tr ∧
    match entry with
    | .confirmedPair predicted realized => predicted = offer.predicted ∧
      receipt.status = .confirmed ∧ ⟨.decodeRealized receipt logs, .ok realized⟩ ∈ tr
    | .revertedTx event => receipt.status = .reverted ∧ event = revertOf txHash receipt

/-- The entry of a trade is attested by the events of the trade. -/
theorem Trade.attested {t : Trade E} {nonce : UInt64} {history history' : ReconcileHistory}
    (hbooks : t.Booked history history') {entry : HistoryEntry}
    (hentry : t.entry? = some entry) : Attested setup (t.events setup nonce) entry := by
  have hoffer : ∀ e ∈ t.toOffer.events setup nonce (.ok t.txHash), e ∈ t.events setup nonce :=
    fun e he => List.mem_append_left _ he
  have hpolled {e : Event (PollOp E)} (he : e ∈ t.polled) :
      e.embed LoopOp.ofPoll ∈ t.events setup nonce :=
    List.mem_append_right _ (List.mem_map_of_mem he)
  obtain ⟨profit, hresult, rfl⟩ | ⟨event, hresult, rfl⟩ := t.entry?_eq_some hentry
  · obtain ⟨receipt, logs, hdelivery, hstatus, hdecode⟩ := hbooks.realized hresult
    exact ⟨t.toOffer, nonce, t.txHash, receipt, logs, hoffer,
      hpolled (mem_of_mem_deliveries hdelivery), rfl, hstatus,
      hpolled (mem_of_mem_decodes hdecode)⟩
  · obtain ⟨receipt, logs, hdelivery, hstatus, hevent⟩ := hbooks.reverted hresult
    exact ⟨t.toOffer, nonce, t.txHash, receipt, logs, hoffer,
      hpolled (mem_of_mem_deliveries hdelivery), hstatus, hevent⟩

/-- The hashes of the submissions that were accepted. -/
def acceptedHashes (tr : List (Event (LoopOp E))) : List TxHash :=
  (submissions tr).filterMap fun sub => sub.2.toOption

theorem acceptedHashes_append (tr es : List (Event (LoopOp E))) :
    acceptedHashes (tr ++ es) = acceptedHashes tr ++ acceptedHashes es := by
  rw [acceptedHashes, submissions_append, List.filterMap_append]
  rfl

theorem Session.acceptedHashes (H : Session setup start tr ts bot) :
    acceptedHashes tr = ts.map (·.txHash) := by
  induction H with
  | start => rfl
  | quiet _ hes ih =>
    rw [acceptedHashes_append, ih, Trading.acceptedHashes, submissions_quiet hes]
    exact List.append_nil _
  | trade t _ _ _ _ ih =>
    rw [acceptedHashes_append, ih, Trading.acceptedHashes, submissions_trade, List.map_append]
    rfl

/-! ## Every run -/

section
variable (h : Handler (LoopOp E) σ) (rounds : Nat) (s : σ)

theorem tradingLoop_ended :
    ∃ ts, Ended setup start (loopEvents A setup polls h rounds start s)
      (finalBot (loopResult A setup polls h rounds start s)) ts := by
  have hrun : Split (fun tr bot => ∃ ts, Going setup start tr bot ts)
      (fun tr exit => ∃ ts, Ended setup start tr exit.bot ts)
      (loopEvents A setup polls h rounds start s) (loopResult A setup polls h rounds start s) := by
    refine tradingLoop_does ?_ ⟨[], .start, by simp⟩ rounds s
    rintro tr bot es result ⟨ts, hgoing⟩ hround
    exact hround.session hgoing
  cases hresult : loopResult A setup polls h rounds start s with
  | ok bot =>
    rw [hresult] at hrun
    obtain ⟨ts, hts⟩ := hrun
    exact ⟨ts, .traded hts.1⟩
  | error exit =>
    rw [hresult] at hrun
    exact hrun

/-- **Every run of the loop is a session**: whatever the simulator, the network and the clock reply,
directly in front of every submission stands the simulation of the same call with a positive profit,
and every trade but the last has settled before the next one is submitted. -/
theorem tradingLoop_session :
    Prog.Preceded IsSubmission (Approves setup) (loopEvents A setup polls h rounds start s) ∧
      ∃ ts, Ended setup start (loopEvents A setup polls h rounds start s)
        (finalBot (loopResult A setup polls h rounds start s)) ts := by
  obtain ⟨ts, hts⟩ := tradingLoop_ended (A := A) h rounds s
  exact ⟨hts.preceded, ts, hts⟩

/-- The nonces of the transactions that were submitted, accepted or not. -/
def submittedNonces (tr : List (Event (LoopOp E))) : List UInt64 :=
  (submissions tr).map (·.1.nonce)

/-- **The nonces of a run are consecutive**, those of a build with overflow checks as numbers: no
nonce is submitted twice or left out. -/
theorem tradingLoop_nonces :
    submittedNonces (loopEvents A setup polls h rounds start s) =
        nonces start.nonce (submissions (loopEvents A setup polls h rounds start s)).length ∧
      (setup.overflowChecks = true →
        (submittedNonces (loopEvents A setup polls h rounds start s)).map UInt64.toNat =
          List.range' start.nonce.toNat
            (submissions (loopEvents A setup polls h rounds start s)).length) := by
  obtain ⟨ts, hts⟩ := tradingLoop_ended (A := A) h rounds s
  obtain ⟨hnonces, hlt⟩ := hts.nonces
  refine ⟨hnonces, fun hchecks => ?_⟩
  rw [submittedNonces, hnonces]
  exact map_toNat_nonces (hlt hchecks)

/-- **Every entry that a run adds to the history is attested by the run.** Each accepted submission
adds at most one, in the order of the submissions: the profit that was simulated for the submitted
call with the profit that was decoded from a confirmed receipt for the hash of the submission, or
the revert of such a receipt. -/
theorem tradingLoop_history :
    ∃ ts : List (Trade E),
      ts.map (·.txHash) <+: acceptedHashes (loopEvents A setup polls h rounds start s) ∧
      (finalBot (loopResult A setup polls h rounds start s)).history =
        (ts.filterMap Trade.entry?).foldl ReconcileHistory.apply start.history ∧
      ∀ t ∈ ts, ∀ entry, t.entry? = some entry →
        ∃ nonce, (∀ e ∈ t.events setup nonce, e ∈ loopEvents A setup polls h rounds start s) ∧
          Attested setup (t.events setup nonce) entry := by
  obtain ⟨ts, hts⟩ := tradingLoop_ended (A := A) h rounds s
  obtain ⟨tr', ⟨rest, hrest⟩, hsession⟩ := hts.session
  refine ⟨ts, ?_, hsession.history, fun t ht entry hentry => ?_⟩
  · rw [← hsession.acceptedHashes, ← hrest, acceptedHashes_append]
    exact List.prefix_append _ _
  · obtain ⟨nonce, history, history', hmem, hbooks⟩ := hsession.mem ht
    refine ⟨nonce, fun e he => ?_, Trade.attested hbooks hentry⟩
    rw [← hrest]
    exact List.mem_append_left _ (hmem e he)

end

end Trading

end Driftbrake
