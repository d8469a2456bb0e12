import Driftbrake.Simulation.Backend

/-!
# Permit conservation

A permit is available, with a call that has not spawned its closure, or with a closure that has not
ended. `acts_permits` says that an action moves permits between the three and makes or loses none;
`permits_conserved` is the law for every run.
-/

namespace Driftbrake.RevmBackend

variable {F : Type} {A : Fractions F} {b : RevmBackend A}

/-- The permits with a call or its closure. -/
def Phase.permits (p : Phase) : Nat := p.holdsPermit.toNat + p.executing.toNat

def State.holding (s : State) : Nat := s.calls.countP (·.phase.holdsPermit)

def State.executing (s : State) : Nat := s.calls.countP (·.phase.executing)

theorem acts_permits {now n n' : Nat} {a : Action} {p p' : Phase} (H : p.Acts b now a n p' n') :
    n' + p'.permits = n + p.permits := by
  cases H <;> rfl

/-- A count over a list with one element replaced. -/
theorem countP_set_add {α : Type} {l : List α} {i : Nat} {x : α} (h : l[i]? = some x)
    (f : α → Bool) (y : α) :
    (l.set i y).countP f + (f x).toNat = l.countP f + (f y).toNat := by
  obtain ⟨hi, rfl⟩ := List.getElem?_eq_some_iff.mp h
  have htoNat : ∀ b : Bool, b.toNat = if b then 1 else 0 := by decide
  have hle : (f l[i]).toNat ≤ l.countP f := by
    cases hf : f l[i] with
    | false => exact Nat.zero_le _
    | true => exact List.countP_pos_iff.mpr ⟨_, List.getElem_mem hi, hf⟩
  rw [List.countP_set hi]
  simp only [htoNat] at hle ⊢
  omega

/-- A step moves permits and makes or loses none. -/
theorem next_permits {s s' : State} {e : Event} (H : s.next b e = some s') :
    s'.available + s'.holding + s'.executing = s.available + s.holding + s.executing := by
  obtain ⟨-, rfl⟩ | ⟨i, a, c, phase, available, -, hc, hact, rfl⟩ | ⟨ms, -, -, rfl⟩ := next_cases H
  · simp [State.holding, State.executing, Phase.holdsPermit, Phase.executing]
  · have hholding := countP_set_add hc (·.phase.holdsPermit) { c with phase }
    have hexecuting := countP_set_add hc (·.phase.executing) { c with phase }
    have := acts_permits hact
    simp only [State.holding, State.executing, Phase.permits] at *
    omega
  · rfl

/-- The permits that are available, those of calls that have not spawned yet and those of closures
that have not ended are `concurrency_limit` in number, so no more closures than that are in
execution, whatever became of their callers. -/
theorem permits_conserved {steps : List (State × Event)} {s : State}
    (H : b.system.Run steps s) :
    s.available + s.holding + s.executing = b.concurrencyLimit ∧
      s.executing ≤ b.concurrencyLimit := by
  have hsum : s.available + s.holding + s.executing = b.concurrencyLimit := by
    refine H.always (I := fun s => s.available + s.holding + s.executing = b.concurrencyLimit)
      (fun h => ?_) fun hI hstep => (next_permits hstep).trans hI
    cases h
    rfl
  exact ⟨hsum, by omega⟩

/-- A closure that outlives its caller keeps the permit from the next call. -/
theorem permits_conserved_timed_out : ∃ steps s, hangingBackend.system.Run steps s ∧
    s.available = 0 ∧ s.holding = 0 ∧ s.executing = 1 ∧
    s.available + s.holding + s.executing = hangingBackend.concurrencyLimit ∧
      s.executing ≤ hangingBackend.concurrencyLimit := by
  obtain ⟨steps, H⟩ : ∃ steps, hangingBackend.system.Run steps _ :=
    System.exists_run [.call, .act 0 .ask, .act 0 .spawn, .act 0 .arm, .tick 50, .act 0 .elapse,
      .call, .act 1 .ask] rfl
  exact ⟨steps, _, H, rfl, rfl, rfl, permits_conserved H⟩

end Driftbrake.RevmBackend
