import Driftbrake.Trading.Fork
import Driftbrake.Trading.Halting

/-!
# The loop on one fork

`main` forks the state of one block and simulates everything on it. A simulation that succeeds says
what the state of this block says, in every round. `plan` is what a round makes of it: an arbitrage
or none. Every submission of every run is this arbitrage with the next nonce, and the rounds that
come to an end submit it all or none of them does (`tradingLoop_frozen`): the prices that the loop
watches do not change. What is submitted has succeeded on this state, with a profit
(`tradingLoop_approved`).
-/

namespace Driftbrake

namespace Trading

open Prog (Event Does Split)

variable {F E σ : Type}

section
variable (A : PoolArith F) (setup : Setup F) (simulated : CandidateTx → Option RawSimOutput)

/-- The arbitrage from one pool into another, if it is predicted to pay. -/
def offerOn (buyPool sellPool : Address) : Option Offer := do
  let raw ← simulated (arbTx setup buyPool sellPool)
  match h : decodePredicted raw with
  | .ok predicted =>
    if hprofit : 0 < predicted.val.toInt then
      some ⟨buyPool, sellPool, raw, predicted, h, hprofit⟩
    else none
  | .error _ => none

/-- What a round decides on the reserves. -/
def planOn (reservesA reservesB : PoolReserves) : Option Offer :=
  if A.lt A.minDivergence (priceDivergence A reservesA reservesB) then
    if A.lt (priceToken0InToken1 A reservesA) (priceToken0InToken1 A reservesB) then
      offerOn setup simulated poolA poolB
    else offerOn setup simulated poolB poolA
  else none

/-- What a round decides, from the outputs of the simulations. -/
def plan : Option Offer := do
  let reservesA ← decodeReserves (← simulated (reservesTx setup poolA))
  let reservesB ← decodeReserves (← simulated (reservesTx setup poolB))
  planOn A setup simulated reservesA reservesB

end

/-- The simulations of some events that have succeeded have these outputs. -/
def Agrees (simulated : CandidateTx → Option RawSimOutput) (es : List (Event (LoopOp E))) : Prop :=
  ∀ tx raw, ⟨.simulate tx, .ok raw⟩ ∈ es → simulated tx = some raw

/-- A round that submits an offer, if there is one and no error comes before. -/
inductive Follows (setup : Setup F) (offer? : Option Offer) (bot : Bot) :
    List (Event (LoopOp E)) → Except (Exit F E) Bot → Prop
  | idle : offer? = none → submissions es = [] → Follows setup offer? bot es (.ok bot)
  | broken : submissions es = [] → Follows setup offer? bot es (.error exit)
  | submits (offer : Offer) (reply : Except E TxHash) : offer? = some offer →
      submissions es = [(offer.tx setup bot.nonce, reply)] → Follows setup offer? bot es result

variable {A : PoolArith F} {setup : Setup F} {polls : Nat} {bot start : Bot}
  {simulated : CandidateTx → Option RawSimOutput} {es es' tr : List (Event (LoopOp E))}
  {offer? : Option Offer} {result : Except (Exit F E) Bot}

theorem Agrees.of_append_right (H : Agrees simulated (es ++ es')) : Agrees simulated es' :=
  fun tx raw hmem => H tx raw (List.mem_append_right _ hmem)

theorem Follows.append (H : Follows setup offer? bot es' result) (hes : submissions es = []) :
    Follows setup offer? bot (es ++ es') result := by
  have hsubs : submissions (es ++ es') = submissions es' := by
    rw [submissions_append, hes, List.nil_append]
  cases H with
  | idle hoffer h => exact .idle hoffer (hsubs.trans h)
  | broken h => exact .broken (hsubs.trans h)
  | submits offer reply hoffer h => exact .submits offer reply hoffer (hsubs.trans h)

theorem Follows.append_right {bot' : Bot} (H : Follows setup offer? bot es (.ok bot'))
    (hes : submissions es' = []) : Follows setup offer? bot (es ++ es') (.ok bot') := by
  have hsubs : submissions (es ++ es') = submissions es := by
    rw [submissions_append, hes, List.append_nil]
  cases H with
  | idle hoffer h => exact .idle hoffer (hsubs.trans h)
  | submits offer reply hoffer h => exact .submits offer reply hoffer (hsubs.trans h)

/-! ## The code of a round -/

variable {h : Handler (LoopOp E) σ}

/-- What is done behind `tr` follows the plan of all outputs that it agrees with. -/
def FollowsFrom (setup : Setup F) (planOf : (CandidateTx → Option RawSimOutput) → Option Offer)
    (bot : Bot) (tr tr' : List (Event (LoopOp E))) (result : Except (Exit F E) Bot) : Prop :=
  ∃ es, tr' = tr ++ es ∧ ∀ simulated, Agrees simulated es →
    Follows setup (planOf simulated) bot es result

theorem readReserves_reads (pool : Address) :
    Does h tr (readReserves setup pool bot).run (Split
      (fun tr' reserves => ∃ raw, decodeReserves raw = some reserves ∧
        tr' = tr ++ [⟨.simulate (reservesTx setup pool), .ok raw⟩])
      (fun tr' _ => ∃ es, tr' = tr ++ es ∧ submissions es = [])) := by
  refine Does.bindE (Prog.does_attempt ?_ ?_)
  · intro raw
    rw [Prog.split_ok]
    cases hdecode : decodeReserves raw with
    | some reserves => exact Prog.does_pureE ⟨raw, hdecode, rfl⟩
    | none => exact Prog.does_throwE ⟨_, rfl, rfl⟩
  · intro e
    exact ⟨_, rfl, rfl⟩

/-- A submission is the only one of its round. -/
theorem submitTrade_follows (offer : Offer) :
    Does h tr (submitTrade A setup polls (arbTx setup offer.buyPool offer.sellPool) offer.predicted
        bot).run fun tr' _ =>
      ∃ es reply, tr' = tr ++ es ∧ submissions es = [(offer.tx setup bot.nonce, reply)] := by
  refine Does.bindE (Prog.does_attempt (fun txHash => ?_) fun e => ⟨_, .error e, rfl, rfl⟩)
  rw [Prog.split_ok]
  split
  · exact Prog.does_throwE ⟨_, .ok txHash, rfl, rfl⟩
  · refine (settleTrade_does offer txHash).mono ?_
    rintro tr' result ⟨t, history, -, -, rfl, -, -⟩
    refine ⟨_, .ok txHash, List.append_assoc .., ?_⟩
    rw [submissions_append, submissions_embed, List.append_nil]
    rfl

theorem offerOn_offer (offer : Offer)
    (hraw : simulated (arbTx setup offer.buyPool offer.sellPool) = some offer.raw) :
    offerOn setup simulated offer.buyPool offer.sellPool = some offer := by
  obtain ⟨buyPool, sellPool, raw, predicted, hdecoded, hprofit⟩ := offer
  rw [offerOn, hraw]
  dsimp only [Option.bind_eq_bind, Option.bind_some]
  split
  · rename_i predicted' hdecoded'
    obtain rfl : predicted = predicted' := by
      rw [hdecoded] at hdecoded'
      exact Except.ok.inj hdecoded'
    rw [dif_pos hprofit]
  · rename_i e he
    rw [hdecoded] at he
    cases he

theorem offerOn_none {buyPool sellPool : Address} {raw : RawSimOutput}
    (hraw : simulated (arbTx setup buyPool sellPool) = some raw)
    (h : ∀ predicted, decodePredicted raw = .ok predicted → ¬0 < predicted.val.toInt) :
    offerOn setup simulated buyPool sellPool = none := by
  rw [offerOn, hraw]
  dsimp only [Option.bind_eq_bind, Option.bind_some]
  split
  · rename_i predicted hdecoded
    rw [dif_neg (h predicted hdecoded)]
  · rfl

/-- What an offer has from the simulations. -/
theorem offerOn_eq_some {buyPool sellPool : Address} {offer : Offer}
    (H : offerOn setup simulated buyPool sellPool = some offer) :
    offer.buyPool = buyPool ∧ offer.sellPool = sellPool ∧
      simulated (arbTx setup buyPool sellPool) = some offer.raw := by
  rw [offerOn] at H
  cases hraw : simulated (arbTx setup buyPool sellPool) with
  | none =>
    rw [hraw] at H
    cases H
  | some raw =>
    rw [hraw] at H
    dsimp only [Option.bind_eq_bind, Option.bind_some] at H
    split at H
    · split at H
      · cases H
        exact ⟨rfl, rfl, rfl⟩
      · cases H
    · cases H

theorem tradeOn_follows (buyPool sellPool : Address) :
    Does h tr (tradeOn A setup polls buyPool sellPool bot).run
      (FollowsFrom setup (fun simulated => offerOn setup simulated buyPool sellPool) bot tr) := by
  refine Does.bindE (Prog.does_attempt (fun raw => ?_) fun e => ?_)
  · rw [Prog.split_ok]
    have hsimulated {es : List (Event (LoopOp E))} {simulated : CandidateTx → Option RawSimOutput}
        (H : Agrees simulated (⟨.simulate (arbTx setup buyPool sellPool), .ok raw⟩ :: es)) :
        simulated (arbTx setup buyPool sellPool) = some raw := H _ _ List.mem_cons_self
    have hidle (hnone : ∀ predicted, decodePredicted raw = .ok predicted →
        ¬0 < predicted.val.toInt) : FollowsFrom setup
          (fun simulated => offerOn setup simulated buyPool sellPool) bot tr
          (tr ++ [⟨.simulate (arbTx setup buyPool sellPool), .ok raw⟩])
          (.ok bot : Except (Exit F E) Bot) :=
      ⟨_, rfl, fun simulated H => .idle (offerOn_none (hsimulated H) hnone) rfl⟩
    cases hdecoded : decodePredicted raw with
    | error e => exact Prog.does_pureE (hidle (by simp [hdecoded]))
    | ok predicted =>
      by_cases hprofit : 0 < predicted.val.toInt
      · simp only [if_pos hprofit]
        let offer : Offer := ⟨buyPool, sellPool, raw, predicted, hdecoded, hprofit⟩
        refine (submitTrade_follows offer).mono ?_
        rintro tr' result ⟨es, reply, rfl, hsubs⟩
        refine ⟨_ :: es, List.append_assoc .., fun simulated H => ?_⟩
        exact .submits offer reply (offerOn_offer offer (hsimulated H)) hsubs
      · simp only [if_neg hprofit]
        refine Prog.does_pureE (hidle fun predicted' h => ?_)
        rw [hdecoded] at h
        cases h
        exact hprofit
  · exact ⟨_, rfl, fun _ _ => .broken rfl⟩

theorem tradeIfDivergent_follows (reservesA reservesB : PoolReserves) :
    Does h tr (tradeIfDivergent A setup polls reservesA reservesB bot).run
      (FollowsFrom setup (fun simulated => planOn A setup simulated reservesA reservesB) bot
        tr) := by
  rw [tradeIfDivergent]
  unfold planOn
  split
  · split
    · exact tradeOn_follows poolA poolB
    · exact tradeOn_follows poolB poolA
  · exact Prog.does_pureE ⟨[], (List.append_nil _).symm, fun _ _ => .idle rfl rfl⟩

theorem plan_eq {rawA rawB : RawSimOutput} {reservesA reservesB : PoolReserves}
    (hA : simulated (reservesTx setup poolA) = some rawA)
    (hB : simulated (reservesTx setup poolB) = some rawB)
    (hdecodeA : decodeReserves rawA = some reservesA)
    (hdecodeB : decodeReserves rawB = some reservesB) :
    plan A setup simulated = planOn A setup simulated reservesA reservesB := by
  rw [plan, hA, hB]
  dsimp only [Option.bind_eq_bind, Option.bind_some]
  rw [hdecodeA, hdecodeB]
  rfl

/-- A plan goes from one of the two pools into the other. -/
theorem plan_eq_some {offer : Offer} (H : plan A setup simulated = some offer) :
    (offer.buyPool = poolA ∧ offer.sellPool = poolB ∨
      offer.buyPool = poolB ∧ offer.sellPool = poolA) ∧
    simulated (arbTx setup offer.buyPool offer.sellPool) = some offer.raw := by
  simp only [plan, Option.bind_eq_bind, Option.bind_eq_some_iff] at H
  obtain ⟨rawA, -, reservesA, -, rawB, -, reservesB, -, hplan⟩ := H
  rw [planOn] at hplan
  split at hplan
  · split at hplan
    · obtain ⟨hbuy, hsell, hraw⟩ := offerOn_eq_some hplan
      exact ⟨.inl ⟨hbuy, hsell⟩, by rw [hbuy, hsell, hraw]⟩
    · obtain ⟨hbuy, hsell, hraw⟩ := offerOn_eq_some hplan
      exact ⟨.inr ⟨hbuy, hsell⟩, by rw [hbuy, hsell, hraw]⟩
  · cases hplan

/-- A round follows its plan. -/
theorem round_follows :
    Does h tr (round A setup polls bot).run (FollowsFrom setup (plan A setup) bot tr) := by
  refine Does.bindE ((readReserves_reads poolA).mono ?_)
  rintro trA (exit | reservesA) hresultA
  · obtain ⟨es, rfl, hes⟩ := hresultA
    exact ⟨es, rfl, fun _ _ => .broken hes⟩
  obtain ⟨rawA, hdecodeA, rfl⟩ := hresultA
  refine Does.bindE ((readReserves_reads poolB).mono ?_)
  rintro trB (exit | reservesB) hresultB
  · obtain ⟨es, rfl, hes⟩ := hresultB
    exact ⟨_ :: es, List.append_assoc .., fun _ _ => .broken hes⟩
  obtain ⟨rawB, hdecodeB, rfl⟩ := hresultB
  -- the plan on the reserves is that of all outputs which agree with the two readings
  have hfollows {es : List (Event (LoopOp E))} {result : Except (Exit F E) Bot}
      {simulated : CandidateTx → Option RawSimOutput}
      (hes : Agrees simulated es → Follows setup (planOn A setup simulated reservesA reservesB) bot
        es result)
      (H : Agrees simulated ([⟨.simulate (reservesTx setup poolA), .ok rawA⟩,
        ⟨.simulate (reservesTx setup poolB), .ok rawB⟩] ++ es)) :
      Follows setup (plan A setup simulated) bot ([⟨.simulate (reservesTx setup poolA), .ok rawA⟩,
        ⟨.simulate (reservesTx setup poolB), .ok rawB⟩] ++ es) result := by
    rw [plan_eq (H _ _ (by simp)) (H _ _ (by simp)) hdecodeA hdecodeB]
    exact (hes H.of_append_right).append rfl
  refine Does.bindE ((tradeIfDivergent_follows reservesA reservesB).mono ?_)
  rintro tr' (exit | bot') ⟨es, rfl, hes⟩
  · exact ⟨_, by rw [List.append_assoc, List.append_assoc]; rfl,
      fun simulated => hfollows (hes simulated)⟩
  · refine Does.bindE (Prog.does_liftE (Prog.does_perform fun r => ?_))
    rw [Prog.split_ok]
    refine Prog.does_pureE ⟨_, by rw [List.append_assoc, List.append_assoc, List.append_assoc]; rfl,
      fun simulated => hfollows fun H => ?_⟩
    exact (hes simulated fun tx raw hmem => H tx raw (List.mem_append_left _ hmem)).append_right rfl

/-! ## Every run -/

/-- All submissions are the offer, with some nonce. -/
def OnlyOffer (setup : Setup F) (offer? : Option Offer) (tr : List (Event (LoopOp E))) : Prop :=
  ∀ sub ∈ submissions tr, ∃ offer, offer? = some offer ∧ sub.1 = offer.tx setup sub.1.nonce

/-- One submission in every round, or none. -/
def Regular (setup : Setup F) (offer? : Option Offer) (rounds : Nat)
    (tr : List (Event (LoopOp E))) : Prop :=
  OnlyOffer setup offer? tr ∧ (submissions tr).length = if offer?.isSome then rounds else 0

/-- The nonces tell the submissions. -/
theorem OnlyOffer.map_fst (H : OnlyOffer setup offer? tr) {ns : List UInt64}
    (hns : (submissions tr).map (·.1.nonce) = ns) :
    (submissions tr).map (·.1) = offer?.toList.flatMap fun offer => ns.map (offer.tx setup) := by
  subst hns
  cases offer? with
  | none =>
    have hempty : submissions tr = [] := List.eq_nil_iff_forall_not_mem.mpr fun sub hsub => by
      obtain ⟨offer, hoffer, -⟩ := H sub hsub
      cases hoffer
    rw [hempty]
    rfl
  | some offer =>
    simp only [Option.toList_some, List.flatMap_singleton, List.map_map]
    refine List.map_congr_left fun sub hsub => ?_
    obtain ⟨offer', hoffer, heq⟩ := H sub hsub
    cases hoffer
    exact heq

theorem OnlyOffer.follows (H : OnlyOffer setup offer? tr)
    (hround : Follows setup offer? bot es result) : OnlyOffer setup offer? (tr ++ es) := by
  intro sub hsub
  rw [submissions_append] at hsub
  rcases List.mem_append.mp hsub with hsub | hsub
  · exact H sub hsub
  · cases hround with
    | idle _ hes | broken hes =>
      rw [hes] at hsub
      cases hsub
    | submits offer reply hoffer hes =>
      rw [hes] at hsub
      cases List.mem_singleton.mp hsub
      exact ⟨offer, hoffer, rfl⟩

theorem Regular.follows {rounds : Nat} {bot' : Bot} (H : Regular setup offer? rounds tr)
    (hround : Follows setup offer? bot es (.ok bot')) :
    Regular setup offer? (rounds + 1) (tr ++ es) := by
  refine ⟨H.1.follows hround, ?_⟩
  rw [submissions_append, List.length_append, H.2]
  cases hround with
  | idle hoffer hes => rw [hoffer, hes]; rfl
  | submits offer reply hoffer hes => rw [hoffer, hes]; rfl

/-- Every run follows the plan of outputs that it agrees with. -/
theorem tradingLoop_follows (rounds : Nat) (s : σ)
    (hagrees : Agrees simulated (loopEvents A setup polls h rounds start s)) :
    Split (fun tr _ => Regular setup (plan A setup simulated) rounds tr)
      (fun tr _ => OnlyOffer setup (plan A setup simulated) tr)
      (loopEvents A setup polls h rounds start s) (loopResult A setup polls h rounds start s) := by
  have hloop : Does h [] (tradingLoop A setup polls rounds start).run (Split
      (fun tr _ => Agrees simulated tr → Regular setup (plan A setup simulated) (0 + rounds) tr)
      (fun tr _ => Agrees simulated tr → OnlyOffer setup (plan A setup simulated) tr)) := by
    refine Prog.does_loop_counted (I := fun k tr _ => Agrees simulated tr →
      Regular setup (plan A setup simulated) k tr) (fun {k tr bot} hbot => ?_) (k := 0)
      (fun _ => ⟨nofun, by simp [submissions]⟩)
    refine round_follows.mono ?_
    rintro tr' (exit | bot') ⟨es, rfl, hround⟩
    · intro H
      have htr := hbot fun tx raw hmem => H tx raw (List.mem_append_left _ hmem)
      exact htr.1.follows (hround simulated H.of_append_right)
    · intro H
      have htr := hbot fun tx raw hmem => H tx raw (List.mem_append_left _ hmem)
      exact htr.follows (hround simulated H.of_append_right)
  have hrun : Split
      (fun tr _ => Agrees simulated tr → Regular setup (plan A setup simulated) (0 + rounds) tr)
      (fun tr _ => Agrees simulated tr → OnlyOffer setup (plan A setup simulated) tr)
      (loopEvents A setup polls h rounds start s) (loopResult A setup polls h rounds start s) :=
    hloop s
  rw [Nat.zero_add] at hrun
  cases hresult : loopResult A setup polls h rounds start s with
  | ok bot =>
    rw [hresult] at hrun
    exact hrun hagrees
  | error exit =>
    rw [hresult] at hrun
    exact hrun hagrees

/-- Also a run that has not ended well has submitted nothing but the offer. -/
theorem onlyOffer_of_split {offer? : Option Offer} {rounds : Nat}
    (H : Split (fun tr _ => Regular setup offer? rounds tr) (fun tr _ => OnlyOffer setup offer? tr)
      tr result) : OnlyOffer setup offer? tr := by
  cases result with
  | ok bot => exact H.1
  | error exit => exact H

/-- The simulations that succeed are runs of the EVM on a fresh fork. -/
def SimulatesOn (fromStrRadix : List Char → Except String U256) (keccak256 : List UInt8 → B256)
    (render : B256 → String) (evm : CandidateTx → Prog DbOp RevmBackend.Outcome)
    (client : σ → JsonRpcClient) (blockTag : String) (h : Handler (LoopOp E) σ) : Prop :=
  ∀ (tx : CandidateTx) (raw : RawSimOutput) (s : σ), (h (.simulate tx) s).1 = .ok raw →
    ((evm tx).run (RpcDb.handler fromStrRadix keccak256 render)
      (.fresh (client s) blockTag)).1.reply = .ok raw

section
variable {fromStrRadix : List Char → Except String U256} {keccak256 : List UInt8 → B256}
  {render : B256 → String} {evm : CandidateTx → Prog DbOp RevmBackend.Outcome}
  {client : σ → JsonRpcClient} {blockTag : String} {state : BlockState}

/-- What succeeds in a run has the output that it has on the state of the block. -/
theorem agrees_state (hserved : ∀ s, state.ServedBy (client s) blockTag)
    (hreads : ReadsHex fromStrRadix)
    (hsimulates : SimulatesOn fromStrRadix keccak256 render evm client blockTag h) {α : Type}
    (p : Prog (LoopOp E) α) (s : σ) :
    Agrees (fun tx => ((evm tx).run (state.handler keccak256 render) []).1.reply.toOption)
      (p.trace h s) := by
  intro tx raw hmem
  obtain ⟨s', hs'⟩ := Prog.exists_of_mem_trace _ hmem
  have hraw := hsimulates tx raw s' hs'.symm
  rw [RpcDb.fresh_eq_after, run_after (hserved s') hreads] at hraw
  exact congrArg Except.toOption hraw

/-- **The loop never leaves its block.** If all simulations run on forks of one block, of which a
node serves the state, then there is one decision for all rounds of all runs: every submission is
the same arbitrage with the next nonce, and either each round that ends submits it or none does. -/
theorem tradingLoop_frozen (hserved : ∀ s, state.ServedBy (client s) blockTag)
    (hreads : ReadsHex fromStrRadix)
    (hsimulates : SimulatesOn fromStrRadix keccak256 render evm client blockTag h) :
    ∃ offer? : Option Offer, ∀ (rounds : Nat) (start : Bot) (s : σ),
      (submissions (loopEvents A setup polls h rounds start s)).map (·.1) =
        offer?.toList.flatMap (fun offer => (nonces start.nonce
          (submissions (loopEvents A setup polls h rounds start s)).length).map (offer.tx setup)) ∧
      ∀ bot, loopResult A setup polls h rounds start s = .ok bot →
        (submissions (loopEvents A setup polls h rounds start s)).length =
          if offer?.isSome then rounds else 0 := by
  refine ⟨plan A setup fun tx =>
    ((evm tx).run (state.handler keccak256 render) []).1.reply.toOption, fun rounds start s => ?_⟩
  have hagrees : Agrees _ (loopEvents A setup polls h rounds start s) :=
    agrees_state hserved hreads hsimulates _ s
  have hfollows := tradingLoop_follows rounds s hagrees
  obtain ⟨ts, hts⟩ := tradingLoop_ended (A := A) h rounds s
  refine ⟨(onlyOffer_of_split hfollows).map_fst hts.nonces.1, fun bot hresult => ?_⟩
  rw [hresult, Prog.split_ok] at hfollows
  exact hfollows.2

/-- Only an execution has an output. -/
theorem executed_of_reply {outcome : RevmBackend.Outcome} {raw : RawSimOutput}
    (h : outcome.reply.toOption = some raw) :
    ∃ result, outcome = .executed result ∧ convertResult result = raw := by
  cases outcome with
  | executed result => exact ⟨result, rfl, Option.some.inj h⟩
  | _ => cases h

/-- The call of a transaction, as it is simulated. -/
def callOf (setup : Setup F) (tx : UnsignedTx) : CandidateTx where
  caller := setup.caller
  toAddr := tx.toAddr
  value := tx.value
  data := tx.data
  gasLimit := tx.gasLimit

/-- **What is submitted has paid on the state of the block.** The call of every submission, accepted
or not, succeeds there, and the first word of its output is a positive profit, to 128 bits with a
sign; what the executor reads in the call are the two pools, in one order or the other, and the
notional. -/
theorem tradingLoop_approved (hserved : ∀ s, state.ServedBy (client s) blockTag)
    (hreads : ReadsHex fromStrRadix)
    (hsimulates : SimulatesOn fromStrRadix keccak256 render evm client blockTag h) (rounds : Nat)
    (s : σ) :
    ∀ sub ∈ submissions (loopEvents A setup polls h rounds start s),
      (∃ (gasUsed : UInt64) (logs : List Log) (output : List UInt8) (profit : Int),
        ((evm (callOf setup sub.1)).run (state.handler keccak256 render) []).1 =
          .executed (.success gasUsed logs output) ∧
        32 ≤ output.length ∧ 0 < profit ∧ profit < 2 ^ 127 ∧
        profit ≡ wordAt output 0 [ZMOD 2 ^ 128]) ∧
      ∃ buyPool sellPool : Address,
        (buyPool = poolA ∧ sellPool = poolB ∨ buyPool = poolB ∧ sellPool = poolA) ∧
        wordAt (sub.1.data.drop 4) 0 = ofBe buyPool.toList ∧
        wordAt (sub.1.data.drop 4) 1 = ofBe sellPool.toList ∧
        wordAt (sub.1.data.drop 4) 2 = tradeNotional.toNat := by
  intro sub hsub
  have hagrees : Agrees _ (loopEvents A setup polls h rounds start s) :=
    agrees_state hserved hreads hsimulates _ s
  -- the submission is the plan of the state
  obtain ⟨offer, hplan, htx⟩ := onlyOffer_of_split (tradingLoop_follows rounds s hagrees) sub hsub
  obtain ⟨hpools, hraw⟩ := plan_eq_some hplan
  obtain ⟨result, hresult, hconvert⟩ := executed_of_reply hraw
  have hdecoded := offer.decoded
  rw [← hconvert] at hdecoded
  obtain ⟨gasUsed, logs, output, rfl, hlen, hword⟩ := decodePredicted_convertResult hdecoded
  obtain ⟨-, hlt⟩ := I128.inRange_toInt offer.predicted.val
  obtain ⟨-, hbuy, hsell, hamount⟩ := wordAt_encodeArbCall
    (functionSelector setup.keccak256 executeArbSignature) offer.buyPool offer.sellPool
    tradeNotional
  rw [htx]
  exact ⟨⟨gasUsed, logs, output, offer.predicted.val.toInt, hresult, hlen, offer.profitable, hlt,
    hword⟩, offer.buyPool, offer.sellPool, hpools, hbuy, hsell, hamount⟩

end

/-- Pools with different prices, and an executor that is predicted to earn what its account has. -/
def sampleEvm (tx : CandidateTx) : Prog DbOp RevmBackend.Outcome := do
  let info ← .perform (.basic tx.toAddr)
  let words := if tx.toAddr = poolA then [1000, 2000] else if tx.toAddr = poolB then [1000, 3000]
    else match info.run with
      | some (.ok (some info)) => [info.balance.toNat]
      | _ => []
  pure (.executed (.success 21000 [] (words.flatMap fun word => encodeU256 (.ofNat word))))

/-- The sample chain with its simulations on a fork. -/
def forkedChain : Handler (LoopOp Unit) Unit where
  step
    | .simulate tx, _ =>
      (((sampleEvm tx).run (RpcDb.handler sampleRadix sampleHash fun _ => "")
        (.fresh sampleNode "0x10")).1.reply, ())
    | op, s => sampleChain op s

theorem forkedChain_simulatesOn : SimulatesOn sampleRadix sampleHash (fun _ => "") sampleEvm
    (fun _ : Unit => sampleNode) "0x10" forkedChain := by
  intro tx raw s hraw
  simpa only [forkedChain] using hraw

theorem tradingLoop_frozen_sample :
    ∃ offer? : Option Offer, ∀ (rounds : Nat) (bot : Bot),
      loopResult PoolArith.exact sampleSetup 1 forkedChain rounds ⟨7, .new⟩ () = .ok bot →
        (submissions (loopEvents PoolArith.exact sampleSetup 1 forkedChain rounds ⟨7, .new⟩
          ())).length = if offer?.isSome then rounds else 0 := by
  obtain ⟨offer?, hoffer⟩ := tradingLoop_frozen (A := PoolArith.exact)
    (fun _ => sampleState_served "0x10") sampleRadix_readsHex forkedChain_simulatesOn
  exact ⟨offer?, fun rounds bot hbot => (hoffer rounds ⟨7, .new⟩ ()).2 bot hbot⟩

/-- The first round of the sample. -/
def forkedEvents : List (Event (LoopOp Unit)) :=
  loopEvents PoolArith.exact sampleSetup 1 forkedChain 1 ⟨7, .new⟩ ()

theorem tradingLoop_approved_sample : (submissions forkedEvents).length = 1 ∧
    ∀ sub ∈ submissions forkedEvents, ∃ gasUsed logs output,
      ((sampleEvm (callOf sampleSetup sub.1)).run
        (sampleState.handler sampleHash fun _ => "") []).1 =
          .executed (.success gasUsed logs output) := by
  refine ⟨by decide +kernel, fun sub hsub => ?_⟩
  obtain ⟨⟨gasUsed, logs, output, -, hresult, -⟩, -⟩ := tradingLoop_approved
    (fun _ => sampleState_served "0x10") sampleRadix_readsHex forkedChain_simulatesOn 1 () sub hsub
  exact ⟨gasUsed, logs, output, hresult⟩

end Trading

end Driftbrake
