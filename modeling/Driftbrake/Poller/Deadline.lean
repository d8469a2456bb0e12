import Driftbrake.Poller.Poller

/-!
# The deadline of a call

What a call sees of time is the clock that it reads: `World` is the surroundings of a poller with a
clock that answers do not advance and sleeps do, by at least what was asked for. The loop polls
before it looks at the deadline, so a receipt that is there by the deadline is found
(`no_false_timeout`). Without a receipt it ends if the sleeps add up to the timeout, which takes an
interval that is not truncated to zero (`ends_iff`).
-/

namespace Driftbrake

variable {E σ : Type}

/-- The surroundings of a poller, answering instantaneously. A sleep may wake up late. -/
structure World (E σ : Type) where
  handler : Handler (PollOp E) σ
  clock : σ → Nat
  now_eq : ∀ s, (handler .now s).1 = clock s
  clock_now : ∀ s, clock (handler .now s).2 = clock s
  clock_getReceipt : ∀ txHash s, clock (handler (.getReceipt txHash) s).2 = clock s
  clock_sleep : ∀ duration s, clock s + duration ≤ clock (handler (.sleep duration) s).2

namespace World

/-- From the time `arrival` on the source has a receipt for the transaction. -/
def Available (w : World E σ) (txHash : TxHash) (arrival : Nat) : Prop :=
  ∀ s, arrival ≤ w.clock s → ∃ found, (w.handler (.getReceipt txHash) s).1 = .ok (some found)

/-- Sleeps wake up on time. -/
def Punctual (w : World E σ) : Prop :=
  ∀ duration s, w.clock (w.handler (.sleep duration) s).2 = w.clock s + duration

/-- The source never has a receipt. -/
def Silent (w : World E σ) : Prop :=
  ∀ txHash s, (w.handler (.getReceipt txHash) s).1 = .ok none

end World

/-! ## One iteration -/

section
variable (h : Handler (PollOp E) σ) {config : PollerConfig} {txHash : TxHash}
  {predicted : PredictedProfit} {history : ReconcileHistory} {deadline polls : Nat} {s : σ}

/-- A poll without a receipt: the deadline is looked at, then the loop sleeps. -/
theorem run_pollLoop_none (hreply : (h (.getReceipt txHash) s).1 = .ok none) :
    (pollLoop config deadline txHash predicted history (polls + 1)).run h s =
      let now := h .now (h (.getReceipt txHash) s).2
      if deadline ≤ now.1 then ((.returned (.ok .timedOut), history), now.2)
      else (pollLoop config deadline txHash predicted history polls).run h
        (h (.sleep config.pollInterval) now.2).2 := by
  rw [pollLoop, Prog.run_bind, Prog.run_perform, hreply]
  generalize hnow : h .now (h (.getReceipt txHash) s).2 = now
  have hrun : (Prog.perform .now).run h (h (.getReceipt txHash) s).2 = now := hnow
  simp only [Prog.run_bind, hrun]
  by_cases hlate : deadline ≤ now.1
  · rw [if_pos hlate, if_pos hlate]
    rfl
  · rw [if_neg hlate, if_neg hlate, Prog.run_bind]
    rfl

/-- A receipt that has arrived is not answered with a timeout. -/
theorem settle_ne_timedOut (receipt : TxReceipt) (logs : List Log) :
    ((settle txHash predicted receipt logs history).run h s).1.1 ≠ .timedOut := by
  rw [settle]
  split
  · nofun
  · rw [Prog.run_bind]
    split <;> nofun

theorem run_pollLoop_some {found : TxReceipt × List Log}
    (hreply : (h (.getReceipt txHash) s).1 = .ok (some found)) :
    ((pollLoop config deadline txHash predicted history (polls + 1)).run h s).1 =
      let r := (settle txHash predicted found.1 found.2 history).run h
        (h (.getReceipt txHash) s).2
      (.returned (.ok r.1.1), r.1.2) := by
  rw [pollLoop, Prog.run_bind, Prog.run_perform, hreply]
  simp only [Prog.run_bind, Prog.run_pure]

end

variable (w : World E σ) {config : PollerConfig} {txHash : TxHash} {predicted : PredictedProfit}
  {history : ReconcileHistory} {deadline arrival : Nat}

/-! ## A receipt in time -/

/-- By induction on the polls: one that finds nothing is made before the receipt arrives, so before
the deadline. -/
theorem pollLoop_ne_timedOut (hav : w.Available txHash arrival) (hle : arrival ≤ deadline)
    (polls : Nat) (s : σ) :
    ((pollLoop config deadline txHash predicted history polls).run w.handler s).1.1 ≠
      .returned (.ok .timedOut) := by
  induction polls generalizing s with
  | zero =>
    intro hout
    cases hout
  | succ polls ih =>
    rcases hreply : (w.handler (.getReceipt txHash) s).1 with error | _ | found
    · rw [pollLoop, Prog.run_bind, Prog.run_perform, hreply]
      intro hout
      cases hout
    · have hearly : w.clock s < arrival := by
        by_contra hlate
        obtain ⟨found, hfound⟩ := hav s (Nat.not_lt.mp hlate)
        rw [hreply] at hfound
        cases hfound
      have hnow : ¬deadline ≤ (w.handler .now (w.handler (.getReceipt txHash) s).2).1 := by
        rw [w.now_eq, w.clock_getReceipt]
        omega
      rw [run_pollLoop_none w.handler hreply]
      simp only [if_neg hnow]
      exact ih _
    · rw [run_pollLoop_some w.handler hreply]
      intro hout
      simp only [PollResult.returned.injEq, Except.ok.injEq] at hout
      exact settle_ne_timedOut w.handler found.1 found.2 hout

/-- **No false timeout.** If the receipt becomes available at or before the deadline, the start of
the call plus `timeout()`, the call does not return `TimedOut`, however late its sleeps wake up. -/
theorem no_false_timeout (overflowChecks : Bool) (call : PollCall) (history : ReconcileHistory)
    (s : σ) {timeout arrival : Nat} (htimeout : call.config.timeout overflowChecks = some timeout)
    (hav : w.Available call.txHash arrival) (hle : arrival ≤ w.clock s + timeout) :
    ((pollUntilSettled overflowChecks call history).run w.handler s).1.1 ≠
      .returned (.ok .timedOut) := by
  rw [pollUntilSettled, Prog.run_bind, Prog.run_perform, htimeout, w.now_eq]
  exact pollLoop_ne_timedOut w hav hle call.polls _

/-- A receipt that arrives at a given time, on a clock whose sleeps wake up some time late. -/
def lateWorld (arrival overshoot : Nat) (receipt : TxReceipt) : World Unit Nat where
  handler := {
    step
      | .now, time => (time, time)
      | .getReceipt _, time => (.ok (if arrival ≤ time then some (receipt, []) else none), time)
      | .decodeRealized .., time => (.error .missingProfitEvent, time)
      | .sleep duration, time => ((), time + duration + overshoot) }
  clock := id
  now_eq _ := rfl
  clock_now _ := rfl
  clock_getReceipt _ _ := rfl
  clock_sleep _ _ := Nat.le_add_right _ _

theorem available_lateWorld (arrival overshoot : Nat) (receipt : TxReceipt) (txHash : TxHash) :
    (lateWorld arrival overshoot receipt).Available txHash arrival :=
  fun _ hle => ⟨(receipt, []), congrArg Except.ok (if_pos hle)⟩

/-- Five blocks of 100 ms, ten polls a block. -/
def tenPolls : PollerConfig where
  blockTimeMs := 100
  pollIntervalFraction := 1 / 10
  confirmationTimeoutBlocks := 5
  blockTimeMs_pos := by decide
  fraction_pos := by norm_num
  fraction_le := by norm_num
  timeoutBlocks_pos := by decide

def minedReceipt : TxReceipt := ⟨Vector.replicate 32 0, 1, .confirmed, 21000, .ofNat 30⟩

/-- A receipt that arrives just at the deadline, with sleeps that wake up 7 ms late. -/
theorem no_false_timeout_at_deadline :
    ((pollUntilSettled true ⟨tenPolls, minedReceipt.txHash, ⟨.ofInt 100⟩, 60⟩ .new).run
      (lateWorld (fromMillis 500) (fromMillis 7) minedReceipt).handler 0).1.1 ≠
        .returned (.ok .timedOut) := by
  have htimeout : tenPolls.timeout true = some (fromMillis 500) := by decide
  exact no_false_timeout (lateWorld (fromMillis 500) (fromMillis 7) minedReceipt) true
    ⟨tenPolls, minedReceipt.txHash, ⟨.ofInt 100⟩, 60⟩ .new 0 htimeout
    (available_lateWorld _ _ _ _) (Nat.le_add_left _ _)

/-! ## The end of the loop -/

/-- Without a receipt the loop ends with the first poll at or behind the deadline. -/
theorem pollLoop_timedOut (hpunctual : w.Punctual) (hsilent : w.Silent) (sleeps : Nat) (s : σ)
    (hle : deadline ≤ w.clock s + sleeps * config.pollInterval) :
    ((pollLoop config deadline txHash predicted history (sleeps + 1)).run w.handler s).1 =
      (.returned (.ok .timedOut), history) := by
  induction sleeps generalizing s with
  | zero =>
    rw [run_pollLoop_none w.handler (hsilent txHash s)]
    have hlate : deadline ≤ (w.handler .now (w.handler (.getReceipt txHash) s).2).1 := by
      rw [w.now_eq, w.clock_getReceipt]
      omega
    simp only [if_pos hlate]
  | succ sleeps ih =>
    rw [run_pollLoop_none w.handler (hsilent txHash s)]
    simp only
    split
    · rfl
    · refine ih _ ?_
      rw [hpunctual, w.clock_now, w.clock_getReceipt, Nat.add_assoc,
        Nat.add_comm config.pollInterval, ← Nat.succ_mul]
      exact hle

/-- With an interval of zero the clock stands still, and the loop polls on. -/
theorem pollLoop_stuck (hpunctual : w.Punctual) (hsilent : w.Silent)
    (hinterval : config.pollInterval = 0) (polls : Nat) (s : σ) (hlt : w.clock s < deadline) :
    ((pollLoop config deadline txHash predicted history polls).run w.handler s).1 =
      (.polling, history) := by
  induction polls generalizing s with
  | zero => rfl
  | succ polls ih =>
    rw [run_pollLoop_none w.handler (hsilent txHash s)]
    have hearly : ¬deadline ≤ (w.handler .now (w.handler (.getReceipt txHash) s).2).1 := by
      rw [w.now_eq, w.clock_getReceipt]
      omega
    simp only [if_neg hearly]
    refine ih _ ?_
    rw [hpunctual, w.clock_now, w.clock_getReceipt, hinterval]
    exact hlt

namespace PollerConfig

/-- The exact product of the block time and the number of blocks. -/
def timeoutMs (config : PollerConfig) : Nat :=
  config.blockTimeMs.toNat * config.confirmationTimeoutBlocks.toNat

/-- `timeout()` is the exact product, and in every punctual world without a receipt a call returns
`TimedOut`, and books nothing, within `timeout / poll_interval + 2` polls. -/
def Ends (config : PollerConfig) (overflowChecks : Bool) : Prop :=
  config.timeout overflowChecks = some (fromMillis config.timeoutMs) ∧
  ∀ {E σ : Type} (w : World E σ), w.Punctual → w.Silent →
    ∀ txHash predicted history s,
      let polls := fromMillis config.timeoutMs / config.pollInterval + 2
      ((pollUntilSettled overflowChecks ⟨config, txHash, predicted, polls⟩ history).run
        w.handler s).1 = (.returned (.ok .timedOut), history)

theorem timeoutMs_pos (config : PollerConfig) : 0 < config.timeoutMs :=
  Nat.mul_pos config.blockTimeMs_pos config.timeoutBlocks_pos

theorem timeout_eq_iff {overflowChecks : Bool} :
    config.timeout overflowChecks = some (fromMillis config.timeoutMs) ↔
      config.timeoutMs < 2 ^ 64 := by
  rw [timeout, ← timeoutMs]
  constructor
  · intro h
    split at h
    · cases h
    · injection h with h
      have hmod : config.timeoutMs % 2 ^ 64 = config.timeoutMs :=
        Nat.eq_of_mul_eq_mul_right (by decide) h
      exact hmod ▸ Nat.mod_lt _ (by decide)
  · intro h
    rw [decide_eq_false (Nat.not_le.mpr h), Bool.and_false, if_neg Bool.false_ne_true,
      Nat.mod_eq_of_lt h]

theorem pollInterval_eq_zero_iff :
    config.pollInterval = 0 ↔ (config.blockTimeMs.toNat : ℚ) * config.pollIntervalFraction < 1 := by
  rw [pollInterval, fromMillis, Nat.mul_eq_zero, or_iff_left (by decide), Nat.floor_eq_zero]

/-- A source without receipts on a punctual clock. -/
def silentWorld : World Unit Nat where
  handler := {
    step
      | .now, time => (time, time)
      | .getReceipt _, time => (.ok none, time)
      | .decodeRealized .., time => (.error .missingProfitEvent, time)
      | .sleep duration, time => ((), time + duration) }
  clock := id
  now_eq _ := rfl
  clock_now _ := rfl
  clock_getReceipt _ _ := rfl
  clock_sleep _ _ := Nat.le_refl _

/-- With a truncated interval no number of polls is enough. -/
theorem not_ends_of_interval {overflowChecks : Bool} (hinterval : config.pollInterval = 0) :
    ¬config.Ends overflowChecks := by
  rintro ⟨htimeout, hends⟩
  have hrun := hends silentWorld (fun _ _ => rfl) (fun _ _ => rfl) (Vector.replicate 32 0)
    ⟨.ofInt 0⟩ .new 0
  have hpos : 0 < fromMillis config.timeoutMs := Nat.mul_pos config.timeoutMs_pos (by decide)
  simp only [pollUntilSettled, Prog.run_bind, htimeout] at hrun
  have hearly : silentWorld.clock 0 < 0 + fromMillis config.timeoutMs := by
    rw [Nat.zero_add]
    exact hpos
  cases (pollLoop_stuck silentWorld (fun _ _ => rfl) (fun _ _ => rfl) hinterval _ 0
    hearly).symm.trans hrun

theorem ends_of_interval {overflowChecks : Bool} (hfits : config.timeoutMs < 2 ^ 64)
    (hinterval : config.pollInterval ≠ 0) : config.Ends overflowChecks := by
  have htimeout : config.timeout overflowChecks = some (fromMillis config.timeoutMs) :=
    timeout_eq_iff.mpr hfits
  refine ⟨htimeout, fun w hpunctual hsilent txHash predicted history s => ?_⟩
  simp only [pollUntilSettled, Prog.run_bind, htimeout]
  refine pollLoop_timedOut w hpunctual hsilent _ _ ?_
  -- one sleep more than the quotient reaches the deadline
  have hdiv := Nat.lt_div_mul_add (a := fromMillis config.timeoutMs)
    (Nat.pos_of_ne_zero hinterval)
  rw [Prog.run_perform, w.now_eq, w.clock_now, Nat.succ_mul]
  omega

/-- **When the polling loop ends.** For an accepted configuration, in checked and unchecked builds,
`timeout()` is the exact product and the loop ends within `timeout / poll_interval + 2` polls if and
only if the product fits a `u64` and the poll interval is at least one millisecond. -/
theorem ends_iff (config : PollerConfig) (overflowChecks : Bool) :
    config.Ends overflowChecks ↔ config.timeoutMs < 2 ^ 64 ∧
      1 ≤ (config.blockTimeMs.toNat : ℚ) * config.pollIntervalFraction := by
  rw [← not_lt (b := (1 : ℚ)), ← pollInterval_eq_zero_iff]
  constructor
  · intro h
    exact ⟨timeout_eq_iff.mp h.1, fun hinterval => not_ends_of_interval hinterval h⟩
  · rintro ⟨hfits, hinterval⟩
    exact ends_of_interval hfits hinterval

/-- Blocks of 250 ms, polled five hundred times each. -/
def tooFast : PollerConfig where
  blockTimeMs := 250
  pollIntervalFraction := 1 / 500
  confirmationTimeoutBlocks := 40
  blockTimeMs_pos := by decide
  fraction_pos := by norm_num
  fraction_le := by norm_num
  timeoutBlocks_pos := by decide

/-- Half a millisecond is truncated to an interval of zero. -/
theorem not_ends_tooFast : ¬∀ (config : PollerConfig) (overflowChecks : Bool),
    config.Ends overflowChecks := by
  intro H
  have hms : tooFast.blockTimeMs.toNat = 250 := rfl
  have hinterval : tooFast.pollInterval = 0 := by
    rw [pollInterval_eq_zero_iff, hms, tooFast]
    norm_num
  exact not_ends_of_interval hinterval (H tooFast true)

end PollerConfig

end Driftbrake
