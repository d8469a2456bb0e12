import Driftbrake.Poller.Decoding
import Driftbrake.Trading.Loop

/-!
# What a round of the trading loop does

`Round bot events result` lists the rounds that are possible from `bot`: one without a submission,
one whose submission is refused, and one with a `Trade`, which `Decides` how the round ends.
`round_does` is the only place where the code of a round is looked at; a property of the loop is
proved from `Round` by the rule `tradingLoop_does`.
-/

namespace Driftbrake

namespace Trading

open Prog (Event Does Split)

variable {F E σ : Type}

/-- A simulation or a pause. -/
def Quiet : Event (LoopOp E) → Prop
  | ⟨.simulate _, _⟩ | ⟨.sleep _, _⟩ => True
  | _ => False

theorem quiet_simulate (tx : CandidateTx) (r : Except SimError RawSimOutput) :
    Quiet (E := E) ⟨.simulate tx, r⟩ := trivial

theorem quiet_sleep (duration : Nat) (r : Unit) : Quiet (E := E) ⟨.sleep duration, r⟩ := trivial

/-- A profitable simulation of an arbitrage, which the loop submits. -/
structure Offer where
  buyPool : Address
  sellPool : Address
  raw : RawSimOutput
  predicted : PredictedProfit
  decoded : decodePredicted raw = .ok predicted
  profitable : 0 < predicted.val.toInt

/-- The transaction of an offer. -/
def Offer.tx (setup : Setup F) (offer : Offer) (nonce : UInt64) : UnsignedTx :=
  unsignedTx setup (arbTx setup offer.buyPool offer.sellPool) nonce

/-- The simulation and the submission of an offer. -/
def Offer.events (setup : Setup F) (offer : Offer) (nonce : UInt64) (reply : Except E TxHash) :
    List (Event (LoopOp E)) :=
  [⟨.simulate (arbTx setup offer.buyPool offer.sellPool), .ok offer.raw⟩,
    ⟨.submit (offer.tx setup nonce), reply⟩]

/-- A submitted offer, with the events and the result of its poll. -/
structure Trade (E : Type) extends Offer where
  txHash : TxHash
  polled : List (Event (PollOp E))
  result : PollResult E

namespace Trade

def events (setup : Setup F) (t : Trade E) (nonce : UInt64) : List (Event (LoopOp E)) :=
  t.toOffer.events setup nonce (.ok t.txHash) ++ t.polled.map (Event.embed LoopOp.ofPoll)

/-- What the trade has added to the history. -/
def entry? (t : Trade E) : Option HistoryEntry := t.result.entry? t.predicted

theorem entry?_eq_some {t : Trade E} {entry : HistoryEntry} (h : t.entry? = some entry) :
    (∃ profit, t.result = .returned (.ok (.realized profit)) ∧
      entry = .confirmedPair t.predicted profit) ∨
    ∃ event, t.result = .returned (.ok (.reverted event)) ∧ entry = .revertedTx event := by
  unfold entry? at h
  cases hresult : t.result with
  | returned outcome =>
    rw [hresult] at h
    rcases outcome with e | profit | event | e | _
    · cases h
    · cases h
      exact .inl ⟨profit, rfl, rfl⟩
    · cases h
      exact .inr ⟨event, rfl, rfl⟩
    · cases h
    · cases h
  | polling =>
    rw [hresult] at h
    cases h
  | panicked =>
    rw [hresult] at h
    cases h

/-- The poll has come to an outcome. -/
def Settled (t : Trade E) : Prop := ∃ outcome, t.result = .returned (.ok outcome)

def Realized (t : Trade E) : Prop := ∃ profit, t.result = .returned (.ok (.realized profit))

/-- What the poller has made of the history and of a decoded profit. -/
structure Booked (t : Trade E) (history history' : ReconcileHistory) : Prop extends
    Books t.txHash t.predicted history history' t.polled t.result where
  keeps : KeepsProfit t.polled t.result

end Trade

/-- How a round with a trade ends, in the state behind the poll. -/
inductive Decides (A : PoolArith F) (setup : Setup F) (t : Trade E) (bot : Bot) :
    Except (Exit F E) Bot → Prop
  | unrealized : t.Settled → ¬t.Realized → Decides A setup t bot (.ok bot)
  | passes : t.Realized → setup.haltPolicy.evaluate A.toArith bot.history = some .continue →
      Decides A setup t bot (.ok bot)
  | halts : t.Realized → setup.haltPolicy.evaluate A.toArith bot.history = some (.halt reason) →
      Decides A setup t bot (.error ⟨.halted reason, bot⟩)
  | panics : t.Realized → setup.haltPolicy.evaluate A.toArith bot.history = none →
      Decides A setup t bot (.error ⟨.panicked, bot⟩)
  | unsettled : ¬t.Settled → (∀ reason, why ≠ .halted reason) →
      Decides A setup t bot (.error ⟨why, bot⟩)

/-- The rounds that are possible from `bot`. -/
inductive Round (A : PoolArith F) (setup : Setup F) (bot : Bot) :
    List (Event (LoopOp E)) → Except (Exit F E) Bot → Prop
  | idle : (∀ e ∈ es, Quiet e) → Round A setup bot es (.ok bot)
  | broken : (∀ e ∈ es, Quiet e) → Round A setup bot es (.error ⟨.failed error, bot⟩)
  | refused (offer : Offer) (reply : Except E TxHash) : (∀ e ∈ es, Quiet e) →
      (∀ reason, why ≠ .halted reason) →
      Round A setup bot (es ++ offer.events setup bot.nonce reply) (.error ⟨why, bot⟩)
  | traded (t : Trade E) : (∀ e ∈ es, Quiet e) → (∀ e ∈ es', Quiet e) →
      (setup.overflowChecks → bot.nonce ≠ .ofNat (2 ^ 64 - 1)) →
      t.Booked bot.history history →
      Decides A setup t ⟨bot.nonce + 1, history⟩ result →
      Round A setup bot (es ++ t.events setup bot.nonce ++ es') result

variable {A : PoolArith F} {setup : Setup F} {polls : Nat} {bot bot' : Bot}
  {es es' tr : List (Event (LoopOp E))}

namespace Round

variable {result : Except (Exit F E) Bot}

theorem quiet_append (hes : ∀ e ∈ es', Quiet e) (H : Round A setup bot es result) :
    Round A setup bot (es' ++ es) result := by
  cases H with
  | idle h => exact .idle (List.forall_mem_append.mpr ⟨hes, h⟩)
  | broken h => exact .broken (List.forall_mem_append.mpr ⟨hes, h⟩)
  | refused offer reply h hwhy =>
    rw [← List.append_assoc]
    exact .refused offer reply (List.forall_mem_append.mpr ⟨hes, h⟩) hwhy
  | traded t h h' hnonce hbooks hdecides =>
    rw [← List.append_assoc, ← List.append_assoc]
    exact .traded t (List.forall_mem_append.mpr ⟨hes, h⟩) h' hnonce hbooks hdecides

theorem append_quiet (H : Round A setup bot es (.ok bot')) (hes : ∀ e ∈ es', Quiet e) :
    Round A setup bot (es ++ es') (.ok bot') := by
  cases H with
  | idle h => exact .idle (List.forall_mem_append.mpr ⟨h, hes⟩)
  | traded t h h' hnonce hbooks hdecides =>
    rw [List.append_assoc]
    exact .traded t h (List.forall_mem_append.mpr ⟨h', hes⟩) hnonce hbooks hdecides

end Round

/-! ## The code of a round -/

variable {h : Handler (LoopOp E) σ}

/-- The events behind `tr` and the result of a round. -/
def RoundFrom (A : PoolArith F) (setup : Setup F) (bot : Bot) (tr tr' : List (Event (LoopOp E)))
    (result : Except (Exit F E) Bot) : Prop :=
  ∃ es, tr' = tr ++ es ∧ Round A setup bot es result

theorem RoundFrom.quiet {e : Event (LoopOp E)} (he : Quiet e) {result : Except (Exit F E) Bot}
    {tr' : List (Event (LoopOp E))} (H : RoundFrom A setup bot (tr ++ [e]) tr' result) :
    RoundFrom A setup bot tr tr' result := by
  obtain ⟨es, rfl, hround⟩ := H
  refine ⟨[e] ++ es, by rw [List.append_assoc], hround.quiet_append ?_⟩
  simpa using he

theorem roundFrom_idle : RoundFrom A setup bot tr tr (.ok bot) :=
  ⟨[], (List.append_nil _).symm, .idle (by simp)⟩

theorem roundFrom_broken {e : Event (LoopOp E)} (he : Quiet e) {error : LoopError E} :
    RoundFrom A setup bot tr (tr ++ [e]) (.error ⟨.failed error, bot⟩) :=
  ⟨[e], rfl, .broken (by simpa using he)⟩

/-- A reading of the reserves is one simulation. -/
theorem readReserves_does (pool : Address) :
    Does h tr (readReserves setup pool bot).run (Split
      (fun tr' _ => ∃ e, Quiet e ∧ tr' = tr ++ [e])
      (fun tr' exit => RoundFrom A setup bot tr tr' (.error exit))) := by
  refine Does.bindE (Prog.does_attempt ?_ ?_)
  · intro raw
    rw [Prog.split_ok]
    cases decodeReserves raw with
    | some reserves => exact Prog.does_pureE ⟨_, quiet_simulate _ _, rfl⟩
    | none => exact Prog.does_throwE (roundFrom_broken (quiet_simulate _ _))
  · intro e
    exact roundFrom_broken (quiet_simulate _ _)

/-- What the loop makes of a settled trade. -/
theorem checkHalt_decides {t : Trade E} {outcome : PollOutcome}
    (hresult : t.result = .returned (.ok outcome)) :
    Does h tr (checkHalt A setup outcome bot).run
      fun tr' result => tr' = tr ∧ Decides A setup t bot result := by
  have hsettled : t.Settled := ⟨outcome, hresult⟩
  have hunrealized (hne : ∀ profit, outcome ≠ .realized profit) : ¬t.Realized := by
    rintro ⟨profit, hprofit⟩
    rw [hresult] at hprofit
    cases hprofit
    exact hne profit rfl
  cases outcome with
  | realized profit =>
    have hrealized : t.Realized := ⟨profit, hresult⟩
    rw [checkHalt]
    cases hdecision : setup.haltPolicy.evaluate A.toArith bot.history with
    | none => exact Prog.does_pure ⟨rfl, .panics hrealized hdecision⟩
    | some decision =>
      cases decision with
      | halt reason => exact Prog.does_pure ⟨rfl, .halts hrealized hdecision⟩
      | «continue» => exact Prog.does_pure ⟨rfl, .passes hrealized hdecision⟩
  | reverted event =>
    exact Prog.does_pure ⟨rfl, .unrealized hsettled (hunrealized (by simp))⟩
  | decodeFailed error =>
    exact Prog.does_pure ⟨rfl, .unrealized hsettled (hunrealized (by simp))⟩
  | timedOut =>
    exact Prog.does_pure ⟨rfl, .unrealized hsettled (hunrealized (by simp))⟩

theorem pollEnded_decides {t : Trade E} :
    Does h tr (pollEnded A setup t.result bot).run
      fun tr' result => tr' = tr ∧ Decides A setup t bot result := by
  have hend {why : Stop F E} (hsettled : ¬t.Settled) (hwhy : ∀ reason, why ≠ .halted reason) :
      Does h tr (throw ⟨why, bot⟩ : LoopM F E Bot).run
        fun tr' result => tr' = tr ∧ Decides A setup t bot result :=
    Prog.does_throwE ⟨rfl, .unsettled hsettled hwhy⟩
  cases hresult : t.result with
  | returned outcome =>
    cases outcome with
    | ok outcome => exact checkHalt_decides hresult
    | error e => exact hend (by simp [Trade.Settled, hresult]) (by simp)
  | polling => exact hend (by simp [Trade.Settled, hresult]) (by simp)
  | panicked => exact hend (by simp [Trade.Settled, hresult]) (by simp)

/-- The poll of a submitted offer. -/
theorem settleTrade_does (offer : Offer) (txHash : TxHash) :
    Does h tr (settleTrade A setup polls txHash offer.predicted bot).run fun tr' result =>
      ∃ (t : Trade E) (history : ReconcileHistory), t.toOffer = offer ∧ t.txHash = txHash ∧
        tr' = tr ++ t.polled.map (Event.embed LoopOp.ofPoll) ∧
        t.Booked bot.history history ∧
        Decides A setup t ⟨bot.nonce, history⟩ result := by
  refine Does.bindE (Prog.does_liftE (Prog.does_embed fun s => ?_))
  have hbooks := pollUntilSettled_books (h.restrict LoopOp.ofPoll) setup.overflowChecks
    (pollCall setup polls txHash offer.predicted) bot.history s
  have hkeeps := pollUntilSettled_keeps (h.restrict LoopOp.ofPoll) setup.overflowChecks
    (pollCall setup polls txHash offer.predicted) bot.history s
  dsimp only at hbooks
  generalize (pollUntilSettled setup.overflowChecks (pollCall setup polls txHash offer.predicted)
    bot.history).run (h.restrict LoopOp.ofPoll) s = after at hbooks hkeeps ⊢
  generalize (pollUntilSettled setup.overflowChecks (pollCall setup polls txHash offer.predicted)
    bot.history).trace (h.restrict LoopOp.ofPoll) s = polled at hbooks hkeeps ⊢
  obtain ⟨⟨result, history⟩, s'⟩ := after
  rw [Prog.split_ok]
  let t : Trade E := { toOffer := offer, txHash, polled, result }
  refine Does.mono (pollEnded_decides (t := t)) ?_
  rintro tr' result' ⟨rfl, hdecides⟩
  exact ⟨t, history, rfl, rfl, rfl, ⟨hbooks, hkeeps⟩, hdecides⟩

theorem submitTrade_does (offer : Offer) :
    Does h (tr ++ [⟨.simulate (arbTx setup offer.buyPool offer.sellPool), .ok offer.raw⟩])
      (submitTrade A setup polls (arbTx setup offer.buyPool offer.sellPool) offer.predicted
        bot).run
      (RoundFrom A setup bot tr) := by
  have hsubmitted (reply : Except E TxHash) :
      tr ++ [⟨.simulate (arbTx setup offer.buyPool offer.sellPool), .ok offer.raw⟩] ++
        [⟨.submit (unsignedTx setup (arbTx setup offer.buyPool offer.sellPool) bot.nonce), reply⟩] =
      tr ++ offer.events setup bot.nonce reply := by
    rw [List.append_assoc]
    rfl
  have hrefused {why : Stop F E} (reply : Except E TxHash)
      (hwhy : ∀ reason, why ≠ .halted reason) :
      RoundFrom A setup bot tr (tr ++ offer.events setup bot.nonce reply) (.error ⟨why, bot⟩) := by
    have hround : Round A setup bot ([] ++ offer.events setup bot.nonce reply)
        (.error ⟨why, bot⟩) := .refused offer reply (by simp) hwhy
    exact ⟨_, rfl, hround⟩
  refine Does.bindE (Prog.does_attempt (fun txHash => ?_) fun e => ?_)
  · rw [Prog.split_ok, hsubmitted]
    split
    · exact Prog.does_throwE (hrefused _ (by simp))
    · rename_i hnonce
      refine (settleTrade_does offer txHash).mono ?_
      rintro tr' result ⟨t, history, rfl, rfl, rfl, hbooks, hdecides⟩
      have hround : Round A setup bot ([] ++ t.events setup bot.nonce ++ []) result := by
        refine .traded t (by simp) (by simp) (fun hchecks hmax => ?_) hbooks hdecides
        simp [hchecks, hmax] at hnonce
      refine ⟨t.events setup bot.nonce, by rw [Trade.events, List.append_assoc], ?_⟩
      simpa using hround
  · rw [Prog.split_error, hsubmitted]
    exact hrefused _ (by simp)

theorem tradeOn_does (buyPool sellPool : Address) :
    Does h tr (tradeOn A setup polls buyPool sellPool bot).run (RoundFrom A setup bot tr) := by
  refine Does.bindE (Prog.does_attempt (fun raw => ?_) fun e => ?_)
  · rw [Prog.split_ok]
    have hquiet {r : Except SimError RawSimOutput} :
        Quiet (E := E) ⟨.simulate (arbTx setup buyPool sellPool), r⟩ := quiet_simulate _ _
    have hidle : RoundFrom A setup bot tr
        (tr ++ [⟨.simulate (arbTx setup buyPool sellPool), .ok raw⟩]) (.ok bot) :=
      roundFrom_idle.quiet hquiet
    cases hdecoded : decodePredicted raw with
    | error e => exact Prog.does_pureE hidle
    | ok predicted =>
      by_cases hprofit : 0 < predicted.val.toInt
      · simp only [if_pos hprofit]
        exact submitTrade_does ⟨buyPool, sellPool, raw, predicted, hdecoded, hprofit⟩
      · simp only [if_neg hprofit]
        exact Prog.does_pureE hidle
  · exact roundFrom_broken (quiet_simulate _ _)

theorem tradeIfDivergent_does (reservesA reservesB : PoolReserves) :
    Does h tr (tradeIfDivergent A setup polls reservesA reservesB bot).run
      (RoundFrom A setup bot tr) := by
  rw [tradeIfDivergent]
  split
  · split
    · exact tradeOn_does poolA poolB
    · exact tradeOn_does poolB poolA
  · exact Prog.does_pureE roundFrom_idle

/-- The code of a round does what `Round` says. -/
theorem round_does : Does h tr (round A setup polls bot).run (RoundFrom A setup bot tr) := by
  refine Does.bindE ((readReserves_does (A := A) poolA).mono ?_)
  rintro trA (exit | reservesA) hresultA
  · exact hresultA
  obtain ⟨a, ha, rfl⟩ := hresultA
  refine Does.bindE ((readReserves_does (A := A) poolB).mono ?_)
  rintro trB (exit | reservesB) hresultB
  · exact RoundFrom.quiet ha hresultB
  obtain ⟨b, hb, rfl⟩ := hresultB
  refine Does.bindE ((tradeIfDivergent_does reservesA reservesB).mono ?_)
  rintro tr' (exit | bot') H
  · exact (H.quiet hb).quiet ha
  · refine Does.bindE (Prog.does_liftE (Prog.does_perform fun r => ?_))
    rw [Prog.split_ok]
    obtain ⟨es, rfl, hround⟩ := (H.quiet hb).quiet ha
    refine Prog.does_pureE ⟨es ++ [_], List.append_assoc .., hround.append_quiet ?_⟩
    simpa using quiet_sleep _ r

/-- The rule for the loop: what every round keeps holds of every run. -/
theorem tradingLoop_does {I : List (Event (LoopOp E)) → Bot → Prop}
    {J : List (Event (LoopOp E)) → Exit F E → Prop}
    (keep : ∀ {tr bot es result}, I tr bot → Round A setup bot es result →
      Split I J (tr ++ es) result) (hI : I [] bot) (rounds : Nat) (s : σ) :
    Split I J (loopEvents A setup polls h rounds bot s)
      (loopResult A setup polls h rounds bot s) := by
  have hloop : Does h [] (tradingLoop A setup polls rounds bot).run (Split I J) := by
    refine Prog.does_loop (fun {tr bot} hbot => round_does.mono ?_) hI
    rintro tr' result ⟨es, rfl, hround⟩
    exact keep hbot hround
  exact hloop s

end Trading

end Driftbrake
