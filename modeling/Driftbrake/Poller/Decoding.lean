import Driftbrake.Poller.Booking

/-!
# What the poller makes of a decoded profit

`Books` says that a booked profit was decoded. Here is the converse: a profit that the decoder has
returned in a call is the result of the call (`pollUntilSettled_keeps`), so no decoded profit is
lost.
-/

namespace Driftbrake

open Prog (Event)

variable {E : Type} {log log' : List (Event (PollOp E))} {result : PollResult E}

/-- Every profit that was decoded is the result of the call. -/
def KeepsProfit (log : List (Event (PollOp E))) (result : PollResult E) : Prop :=
  ∀ decoded profit, (decoded, .ok profit) ∈ decodes log →
    result = .returned (.ok (.realized profit))

theorem KeepsProfit.of_idle (hlog : Idle log) : KeepsProfit log result := by
  intro decoded profit hd
  rw [hlog.2] at hd
  cases hd

theorem KeepsProfit.idle_append (hlog : Idle log) (H : KeepsProfit log' result) :
    KeepsProfit (log ++ log') result := by
  intro decoded profit hd
  rw [decodes, List.filterMap_append] at hd
  rcases List.mem_append.mp hd with hd | hd
  · rw [← decodes, hlog.2] at hd
    cases hd
  · exact H _ _ hd

variable {σ : Type} (h : Handler (PollOp E) σ)

theorem settle_keeps (txHash : TxHash) (predicted : PredictedProfit) (receipt : TxReceipt)
    (logs : List Log) (history : ReconcileHistory) (s : σ) :
    KeepsProfit ((settle txHash predicted receipt logs history).trace h s)
      (.returned (.ok ((settle txHash predicted receipt logs history).run h s).1.1) :
        PollResult E) := by
  intro decoded profit hd
  cases hstatus : receipt.status with
  | reverted =>
    simp only [settle, hstatus, Prog.trace_pure] at hd
    cases hd
  | confirmed =>
    simp only [settle, hstatus, Prog.run_bind, Prog.run_perform, Prog.trace_bind,
      Prog.trace_perform] at hd ⊢
    cases hdec : (h (.decodeRealized receipt logs) s).1 with
    | ok profit' =>
      simp only [hdec] at hd
      cases List.mem_singleton.mp hd
      rfl
    | error e =>
      simp only [hdec] at hd
      cases List.mem_singleton.mp hd

theorem pollLoop_keeps (config : PollerConfig) (deadline : Nat) (txHash : TxHash)
    (predicted : PredictedProfit) (history : ReconcileHistory) (polls : Nat) (s : σ) :
    KeepsProfit ((pollLoop config deadline txHash predicted history polls).trace h s)
      ((pollLoop config deadline txHash predicted history polls).run h s).1.1 := by
  induction polls generalizing s with
  | zero => exact .of_idle ⟨rfl, rfl⟩
  | succ polls ih =>
    simp only [pollLoop, Prog.run_bind, Prog.run_perform, Prog.trace_bind, Prog.trace_perform]
    cases hreply : (h (.getReceipt txHash) s).1 with
    | error e => exact .of_idle ⟨rfl, rfl⟩
    | ok found =>
      cases found with
      | some found =>
        have H := settle_keeps h txHash predicted found.1 found.2 history
          (h (.getReceipt txHash) s).2
        simpa [KeepsProfit, decodes, decode?] using H
      | none =>
        rw [Prog.run_bind, Prog.trace_bind]
        refine KeepsProfit.idle_append ⟨rfl, rfl⟩ (KeepsProfit.idle_append ⟨rfl, rfl⟩ ?_)
        generalize (Prog.perform .now).run h (h (.getReceipt txHash) s).2 = now
        by_cases hlate : deadline ≤ now.1
        · rw [if_pos hlate]
          exact .of_idle ⟨rfl, rfl⟩
        · rw [if_neg hlate, Prog.run_bind, Prog.trace_bind]
          exact KeepsProfit.idle_append ⟨rfl, rfl⟩ (ih _)

theorem pollUntilSettled_keeps (overflowChecks : Bool) (call : PollCall)
    (history : ReconcileHistory) (s : σ) :
    KeepsProfit ((pollUntilSettled overflowChecks call history).trace h s)
      ((pollUntilSettled overflowChecks call history).run h s).1.1 := by
  simp only [pollUntilSettled, Prog.run_bind, Prog.run_perform, Prog.trace_bind,
    Prog.trace_perform]
  refine KeepsProfit.idle_append ⟨rfl, rfl⟩ ?_
  cases call.config.timeout overflowChecks with
  | none => exact .of_idle ⟨rfl, rfl⟩
  | some timeout => exact pollLoop_keeps h _ _ _ _ _ _ _

end Driftbrake
