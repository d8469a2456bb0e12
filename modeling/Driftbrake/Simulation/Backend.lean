import Driftbrake.Core.Types
import Driftbrake.Lib.System
import Mathlib.Data.Rat.Init

/-!
# The simulation backend

`RevmBackend` of `revm-backend/src/backend.rs` with any number of concurrent calls of `simulate`, as
a transition system over the semaphore, the calls and the blocking closures they spawn. REVM and the
database decide only how a closure ends, so that is part of the event. Tokio's part is what it
promises: a permit goes back to the semaphore when its owner is dropped, a closure goes on when its
`JoinHandle` is dropped, and `timeout` looks at the closure before it looks at the clock. Which of
the waiting calls gets a permit is left open.

A call is made when its future is first polled, as an `async fn` does nothing before. Between two
`await`s a call runs without a pause: the clock, in milliseconds, stands still while it does.
-/

namespace Driftbrake

/-- The part of `f64` that fractions of a time need, of which nothing is assumed. -/
structure Fractions (F : Type) where
  /-- `x > 0.0 && x <= 1.0`. -/
  inUnit : F → Bool
  /-- `(ms as f64 * x) as u64`. -/
  scale : UInt64 → F → UInt64

/-- Fractions without rounding, but for the cast to a whole number of milliseconds. -/
def Fractions.exact : Fractions ℚ where
  inUnit x := decide (0 < x ∧ x ≤ 1)
  scale ms x := .ofNat (ms.toNat * x.num.toNat / x.den)

/-- The errors that `simulate` puts into the box of `SimError::Backend`. -/
inductive BackendError
  | freshDb (e : String)
  | transact (e : String)
  | join
deriving DecidableEq, Repr

inductive SimError
  | timeout (ms : UInt64)
  | backend (e : BackendError)
deriving DecidableEq, Repr

structure RawSimOutput where
  returnData : List UInt8
  gasUsed : UInt64
  revertReason : Option String
  logs : List Log
deriving DecidableEq, Repr

/-- REVM's `ExecutionResult`; a halt carries its reason as `{:?}` prints it. -/
inductive ExecutionResult
  | success (gasUsed : UInt64) (logs : List Log) (output : List UInt8)
  | revert (gasUsed : UInt64) (output : List UInt8)
  | halt (reason : String) (gasUsed : UInt64)
deriving DecidableEq, Repr

def convertResult : ExecutionResult → RawSimOutput
  | .success gasUsed logs output => ⟨output, gasUsed, none, logs⟩
  | .revert gasUsed output => ⟨output, gasUsed, some "reverted", []⟩
  | .halt reason gasUsed => ⟨[], gasUsed, some ("halted: " ++ reason), []⟩

/-- `Semaphore::MAX_PERMITS` on a 64-bit target. -/
def maxPermits : Nat := 2 ^ 61 - 1

structure RevmBackend {F : Type} (A : Fractions F) where
  blockTimeMs : UInt64
  timeoutFraction : F
  concurrencyLimit : Nat
  fraction_inUnit : A.inUnit timeoutFraction = true
  limit_pos : 0 < concurrencyLimit
  limit_le : concurrencyLimit ≤ maxPermits

namespace RevmBackend

variable {F : Type} {A : Fractions F} {b : RevmBackend A}

/-- `none` where the assertions, or that of `Semaphore::new`, panic. -/
def new (A : Fractions F) (blockTimeMs : UInt64) (timeoutFraction : F) (concurrencyLimit : Nat) :
    Option (RevmBackend A) :=
  if h : A.inUnit timeoutFraction = true ∧ 0 < concurrencyLimit ∧ concurrencyLimit ≤ maxPermits then
    some ⟨blockTimeMs, timeoutFraction, concurrencyLimit, h.1, h.2.1, h.2.2⟩
  else none

def timeout (b : RevmBackend A) : UInt64 := A.scale b.blockTimeMs b.timeoutFraction

/-! ## One call -/

/-- How a blocking closure ends. -/
inductive Outcome
  | freshDbFailed (e : String)
  | transactFailed (e : String)
  | executed (result : ExecutionResult)
  | panicked

/-- What the caller makes of the reply of the `JoinHandle`. -/
def Outcome.reply : Outcome → Except SimError RawSimOutput
  | .freshDbFailed e => .error (.backend (.freshDb e))
  | .transactFailed e => .error (.backend (.transact e))
  | .executed result => .ok (convertResult result)
  | .panicked => .error (.backend .join)

/-- The blocking closure, which owns the permit until it ends. -/
inductive Closure
  | running
  | finished (o : Outcome)

def Closure.isRunning : Closure → Bool
  | running => true
  | finished _ => false

/-- The caller's future once the closure has been spawned. -/
inductive Caller
  | arming
  | awaiting (deadline : Nat)
  | returned (result : Except SimError RawSimOutput)
  | cancelled

/-- Where a call of `simulate` stands. In front of the closure it waits for a permit, has been given
one by the semaphore while it was suspended, or holds one. -/
inductive Phase
  | called
  | waiting
  | granted
  | holding
  | cancelled
  | spawned (caller : Caller) (closure : Closure)

inductive Action
  | ask
  | grant
  | resume
  | spawn
  | arm
  | finish (o : Outcome)
  | join
  | elapse
  | cancel

namespace Phase

/-- The call is between two `await`s. -/
def running : Phase → Bool
  | called | holding | spawned .arming _ => true
  | _ => false

/-- The call's future has returned `Poll::Pending` and not been dropped. -/
def pending : Phase → Bool
  | waiting | granted | spawned (.awaiting _) _ => true
  | _ => false

/-- The call owns a permit and has not spawned its closure. -/
def holdsPermit : Phase → Bool
  | granted | holding => true
  | _ => false

/-- The call's closure has been spawned and has not ended. -/
def executing : Phase → Bool
  | spawned _ closure => closure.isRunning
  | _ => false

/-- The deadline the call's timer is set to. -/
def timer : Phase → Option Nat
  | spawned (.awaiting deadline) _ => some deadline
  | _ => none

/-- One action of a call, of its closure or of the semaphore on its behalf, with the number of
available permits before and after. -/
def act (b : RevmBackend A) (now available : Nat) : Action → Phase → Option (Phase × Nat)
  | .ask, called =>
    -- the semaphore is never closed, so `acquire_owned` does not fail
    if 0 < available then some (holding, available - 1) else some (waiting, available)
  | .grant, waiting => if 0 < available then some (granted, available - 1) else none
  | .resume, granted => some (holding, available)
  | .spawn, holding => some (spawned .arming .running, available)
  | .arm, spawned .arming closure =>
    some (spawned (.awaiting (now + b.timeout.toNat)) closure, available)
  | .finish o, spawned caller .running => some (spawned caller (.finished o), available + 1)
  | .join, spawned (.awaiting _) (.finished o) =>
    some (spawned (.returned o.reply) (.finished o), available)
  | .elapse, spawned (.awaiting deadline) .running =>
    if deadline ≤ now then
      some (spawned (.returned (.error (.timeout b.timeout))) .running, available)
    else none
  | .cancel, waiting => some (cancelled, available)
  | .cancel, granted => some (cancelled, available + 1)
  | .cancel, spawned (.awaiting _) closure => some (spawned .cancelled closure, available)
  | _, _ => none

/-- What an action does to a call and to the number of available permits, case by case. -/
inductive Acts (b : RevmBackend A) (now : Nat) : Action → Phase → Nat → Phase → Nat → Prop
  | acquire : Acts b now .ask called (n + 1) holding n
  | wait : Acts b now .ask called 0 waiting 0
  | grant : Acts b now .grant waiting (n + 1) granted n
  | resume : Acts b now .resume granted n holding n
  | spawn : Acts b now .spawn holding n (spawned .arming .running) n
  | arm {closure : Closure} : Acts b now .arm (spawned .arming closure) n
      (spawned (.awaiting (now + b.timeout.toNat)) closure) n
  | finish : Acts b now (.finish o) (spawned caller .running) n
      (spawned caller (.finished o)) (n + 1)
  | join : Acts b now .join (spawned (.awaiting deadline) (.finished o)) n
      (spawned (.returned o.reply) (.finished o)) n
  | elapse : deadline ≤ now → Acts b now .elapse (spawned (.awaiting deadline) .running) n
      (spawned (.returned (.error (.timeout b.timeout))) .running) n
  | leave : Acts b now .cancel waiting n cancelled n
  | giveBack : Acts b now .cancel granted n cancelled (n + 1)
  | detach {closure : Closure} : Acts b now .cancel (spawned (.awaiting deadline) closure) n
      (spawned .cancelled closure) n

theorem acts_of_act {now n n' : Nat} {a : Action} {p p' : Phase}
    (H : p.act b now n a = some (p', n')) : Acts b now a p n p' n' := by
  revert H
  fun_cases Phase.act b now n a p <;> rintro ⟨⟩
  case case1 h => exact Nat.succ_pred_eq_of_pos h ▸ .acquire
  case case2 h => exact Nat.eq_zero_of_not_pos h ▸ .wait
  case case3 h => exact Nat.succ_pred_eq_of_pos h ▸ .grant
  case case10 h => exact .elapse h
  all_goals constructor

end Phase

/-! ## All calls -/

structure Call where
  /-- The time of the call. -/
  made : Nat
  phase : Phase

structure State where
  now : Nat
  available : Nat
  calls : List Call

inductive Event
  | call
  | act (i : Nat) (a : Action)
  | tick (ms : Nat)

def State.next (b : RevmBackend A) : Event → State → Option State
  | .call, s => some { s with calls := s.calls ++ [⟨s.now, .called⟩] }
  | .act i a, s => do
    let c ← s.calls[i]?
    let (phase, available) ← c.phase.act b s.now s.available a
    some { s with available, calls := s.calls.set i { c with phase } }
  | .tick ms, s =>
    if s.calls.any (·.phase.running) then none else some { s with now := s.now + ms }

/-- The backend right after its construction. -/
def start (b : RevmBackend A) : State := ⟨0, b.concurrencyLimit, []⟩

def system (b : RevmBackend A) : System State Event := .ofNext b.start (State.next b)

/-- The backend of the test of the timeout: 50 ms for one simulation at a time. -/
def hangingBackend : RevmBackend Fractions.exact where
  blockTimeMs := 100
  timeoutFraction := mkRat 1 2
  concurrencyLimit := 1
  fraction_inUnit := rfl
  limit_pos := Nat.one_pos
  limit_le := Nat.le_of_ble_eq_true rfl

variable {s s' : State} {e : Event}

/-- What one event does. -/
theorem next_cases (H : s.next b e = some s') :
    (e = .call ∧ s' = { s with calls := s.calls ++ [⟨s.now, .called⟩] }) ∨
    (∃ i a c phase available, e = .act i a ∧ s.calls[i]? = some c ∧
      c.phase.Acts b s.now a s.available phase available ∧
      s' = { s with available, calls := s.calls.set i { c with phase } }) ∨
    (∃ ms, e = .tick ms ∧ (∀ c ∈ s.calls, c.phase.running = false) ∧
      s' = { s with now := s.now + ms }) := by
  cases e with
  | call => exact .inl ⟨rfl, by simpa [State.next] using H.symm⟩
  | act i a =>
    simp only [State.next, Option.bind_eq_bind, Option.bind_eq_some_iff] at H
    obtain ⟨c, hc, ⟨phase, available⟩, hact, H⟩ := H
    exact .inr (.inl ⟨i, a, c, phase, available, rfl, hc, Phase.acts_of_act hact,
      (Option.some.inj H).symm⟩)
  | tick ms =>
    simp only [State.next] at H
    split at H
    · cases H
    · rename_i hrunning
      refine .inr (.inr ⟨ms, rfl, fun c hc => ?_, (Option.some.inj H).symm⟩)
      simpa using fun h => hrunning (List.any_eq_true.mpr ⟨c, hc, h⟩)

end RevmBackend

end Driftbrake
