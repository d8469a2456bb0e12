import Driftbrake.Lib.TraceLogic
import Driftbrake.Poller.Poller
import Driftbrake.Reconcile.Policy
import Driftbrake.Trading.Decoder

/-!
# The trading loop

The loop of the `toy-arbitrage` example: read two pools, simulate an arbitrage between them, submit
it if a profit is predicted, poll until it has settled, and stop when the policy halts. What the
loop asks of its surroundings (the simulation, the submission, the operations of the poller) are the
operations `LoopOp`; the nonce and the history, which it changes itself, are the `Bot`.

The loop of the source has no bound, so `tradingLoop` takes a number of rounds, and each round a
number of polls; `Stop` is how it ends.
-/

namespace Driftbrake

structure CandidateTx where
  caller : Address
  /-- The field `to`. -/
  toAddr : Address
  value : U128
  data : List UInt8
  gasLimit : UInt64
deriving DecidableEq, Repr

/-- The arithmetic of the guards with the operations on prices and profits. -/
structure PoolArith (F : Type) extends Arith F where
  /-- `x as f64` for a `u128`. -/
  ofU128 : Nat → F
  sub : F → F → F
  mul : F → F → F
  /-- `x.round() as i128`. -/
  roundI128 : F → Int
  /-- `MIN_DIVERGENCE`, the literal `0.02`. -/
  minDivergence : F

/-- `f64::round`, half away from zero. -/
def roundHalfAway (x : ℚ) : Int := if 0 ≤ x then ⌊x + 1 / 2⌋ else -⌊1 / 2 - x⌋

/-- The saturation of a cast to `i128`. -/
def saturateI128 (n : Int) : Int := max (-2 ^ 127) (min n (2 ^ 127 - 1))

/-- Prices and profits without rounding, but for the rounding of the source. -/
def PoolArith.exact : PoolArith ℚ where
  toArith := Arith.exact
  ofU128 n := n
  sub x y := x - y
  mul x y := x * y
  roundI128 x := saturateI128 (roundHalfAway x)
  minDivergence := 2 / 100

/-- The operations of the loop. `E` is the error of the network adapters. -/
inductive LoopOp (E : Type) : Type → Type
  | simulate (tx : CandidateTx) : LoopOp E (Except SimError RawSimOutput)
  | submit (tx : UnsignedTx) : LoopOp E (Except E TxHash)
  | now : LoopOp E Nat
  | getReceipt (txHash : TxHash) : LoopOp E (Except E (Option (TxReceipt × List Log)))
  | decodeRealized (receipt : TxReceipt) (logs : List Log) :
      LoopOp E (Except DecodeError RealizedProfit)
  | sleep (duration : Nat) : LoopOp E Unit

/-- An operation of the poller as one of the loop. -/
def LoopOp.ofPoll {E β : Type} : PollOp E β → LoopOp E β
  | .now => .now
  | .getReceipt txHash => .getReceipt txHash
  | .decodeRealized receipt logs => .decodeRealized receipt logs
  | .sleep duration => .sleep duration

namespace Trading

open Prog (perform attempt)

/-! ## `config` -/

def executorAddress : Address := Vector.replicate 20 0x99

def poolA : Address := Vector.replicate 20 0xa1

def poolB : Address := Vector.replicate 20 0xb2

def tradeNotional : U128 := .ofNat 1000000000000000000

def gasLimit : UInt64 := 500000

def getReservesSignature : String := "getReserves()"

/-! ## Prices -/

section
variable {F : Type} (A : PoolArith F)

def priceToken0InToken1 (self : PoolReserves) : F :=
  A.div (A.ofU128 self.reserve1.toNat) (A.ofU128 self.reserve0.toNat)

def priceDivergence (a b : PoolReserves) : F :=
  let pa := priceToken0InToken1 A a
  let pb := priceToken0InToken1 A b
  let (low, high) := if A.lt pa pb then (pa, pb) else (pb, pa)
  A.div (A.sub high low) low

end

/-! ## The state of the loop -/

/-- What `main` has set up before the loop. -/
structure Setup (F : Type) where
  keccak256 : List UInt8 → TxHash
  overflowChecks : Bool
  caller : Address
  chainId : UInt64
  gasPrice : U128
  blockTimeMs : UInt64
  pollerConfig : PollerConfig
  haltPolicy : ReconcilePolicy F

/-- The setup of `main`. -/
def Setup.main (keccak256 : List UInt8 → TxHash) (overflowChecks : Bool) (caller : Address)
    (chainId : UInt64) (gasPrice : U128) (blockTimeMs : UInt64) (pollerConfig : PollerConfig) :
    Setup ℚ :=
  { keccak256, overflowChecks, caller, chainId, gasPrice, blockTimeMs, pollerConfig
    haltPolicy := .defaultDualGuard }

structure Bot where
  nonce : UInt64
  history : ReconcileHistory

inductive LoopError (E : Type)
  | sim (e : SimError)
  | malformedReserves
  | submit (e : E)
  | source (e : E)

/-- How the loop ends. `polling` is a poll that has not come to an end. -/
inductive Stop (F E : Type)
  | halted (reason : HaltReason F)
  | failed (error : LoopError E)
  | panicked
  | polling

/-- The end of the loop and the state it leaves. -/
structure Exit (F E : Type) where
  why : Stop F E
  bot : Bot

variable {F E : Type}

abbrev LoopM (F E : Type) := ExceptT (Exit F E) (Prog (LoopOp E))

section
variable (A : PoolArith F) (setup : Setup F) (polls : Nat)

/-! ## One round -/

def reservesTx (pool : Address) : CandidateTx where
  caller := setup.caller
  toAddr := pool
  value := .ofNat 0
  data := encodeNoArgCall (functionSelector setup.keccak256 getReservesSignature)
  gasLimit := 100000

def readReserves (pool : Address) (bot : Bot) : LoopM F E PoolReserves := do
  let raw ← attempt (fun e => ⟨.failed (.sim e), bot⟩) (.simulate (reservesTx setup pool))
  match decodeReserves raw with
  | some reserves => pure reserves
  | none => throw ⟨.failed .malformedReserves, bot⟩

def arbTx (buyPool sellPool : Address) : CandidateTx where
  caller := setup.caller
  toAddr := executorAddress
  value := .ofNat 0
  data := encodeArbCall (functionSelector setup.keccak256 executeArbSignature) buyPool sellPool
    tradeNotional
  gasLimit := gasLimit

def unsignedTx (candidate : CandidateTx) (nonce : UInt64) : UnsignedTx where
  nonce := nonce
  gasPrice := setup.gasPrice
  gasLimit := gasLimit
  toAddr := executorAddress
  value := .ofNat 0
  data := candidate.data
  chainId := setup.chainId

/-- The policy is only evaluated when a profit was realized. -/
def checkHalt (outcome : PollOutcome) (bot : Bot) : LoopM F E Bot :=
  match outcome with
  | .realized _ =>
    match setup.haltPolicy.evaluate A.toArith bot.history with
    | some (.halt reason) => throw ⟨.halted reason, bot⟩
    | some .continue => pure bot
    | none => throw ⟨.panicked, bot⟩
  | .reverted _ | .decodeFailed _ | .timedOut => pure bot

def pollCall (txHash : TxHash) (predicted : PredictedProfit) : PollCall where
  config := setup.pollerConfig
  txHash := txHash
  predicted := predicted
  polls := polls

/-- What the loop makes of the result of a poll. -/
def pollEnded (result : PollResult E) (bot : Bot) : LoopM F E Bot :=
  match result with
  | .returned (.ok outcome) => checkHalt A setup outcome bot
  | .returned (.error (.source e)) => throw ⟨.failed (.source e), bot⟩
  | .polling => throw ⟨.polling, bot⟩
  | .panicked => throw ⟨.panicked, bot⟩

def settleTrade (txHash : TxHash) (predicted : PredictedProfit) (bot : Bot) : LoopM F E Bot := do
  let (result, history) ← liftM
    ((pollUntilSettled setup.overflowChecks (pollCall setup polls txHash predicted)
      bot.history).embed LoopOp.ofPoll)
  pollEnded A setup result { bot with history }

def submitTrade (candidate : CandidateTx) (predicted : PredictedProfit) (bot : Bot) :
    LoopM F E Bot := do
  let unsigned := unsignedTx setup candidate bot.nonce
  let txHash ← attempt (fun e => ⟨.failed (.submit e), bot⟩) (.submit unsigned)
  -- `nonce += 1`
  if setup.overflowChecks && bot.nonce == UInt64.ofNat (2 ^ 64 - 1) then throw ⟨.panicked, bot⟩
  else settleTrade A setup polls txHash predicted { bot with nonce := bot.nonce + 1 }

def tradeOn (buyPool sellPool : Address) (bot : Bot) : LoopM F E Bot := do
  let candidate := arbTx setup buyPool sellPool
  let raw ← attempt (fun e => ⟨.failed (.sim e), bot⟩) (.simulate candidate)
  match decodePredicted raw with
  | .ok predicted =>
    if 0 < predicted.val.toInt then submitTrade A setup polls candidate predicted bot
    else pure bot
  | .error _ => pure bot

/-- Buy in the pool with the lower price, if the prices are far enough apart. -/
def tradeIfDivergent (reservesA reservesB : PoolReserves) (bot : Bot) : LoopM F E Bot :=
  if A.lt A.minDivergence (priceDivergence A reservesA reservesB) then
    if A.lt (priceToken0InToken1 A reservesA) (priceToken0InToken1 A reservesB) then
      tradeOn A setup polls poolA poolB bot
    else tradeOn A setup polls poolB poolA bot
  else pure bot

def round (bot : Bot) : LoopM F E Bot := do
  let reservesA ← readReserves setup poolA bot
  let reservesB ← readReserves setup poolB bot
  let bot ← tradeIfDivergent A setup polls reservesA reservesB bot
  liftM (perform (LoopOp.sleep (E := E) (fromMillis setup.blockTimeMs.toNat)))
  pure bot

def tradingLoop (rounds : Nat) (bot : Bot) : LoopM F E Bot :=
  Prog.loop (round A setup polls) rounds bot

/-! ## Runs -/

section
variable {σ : Type} (h : Handler (LoopOp E) σ) (rounds : Nat) (start : Bot) (s : σ)

/-- What a run has done. -/
def loopEvents : List (Prog.Event (LoopOp E)) :=
  (tradingLoop A setup polls rounds start).run.trace h s

/-- How a run has ended. -/
def loopResult : Except (Exit F E) Bot :=
  ((tradingLoop A setup polls rounds start).run.run h s).1

end

/-- The state a run has reached, wherever it has ended. -/
def finalBot : Except (Exit F E) Bot → Bot
  | .ok bot => bot
  | .error exit => exit.bot

end

end Trading

end Driftbrake
