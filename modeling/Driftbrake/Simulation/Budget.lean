import Driftbrake.Simulation.Backend

/-!
# The latency budget of a call

`simulate` sets its timer behind the `await` for the permit, so a call that has to wait there has no
deadline. `budgeted_iff` says that this is the only way a pending call can be without its budget:
all pending calls of a run have their timers just when every call of the run found a permit.
-/

namespace Driftbrake.RevmBackend

variable {F : Type} {A : Fractions F} {b : RevmBackend A} {s s' : State} {e : Event}

/-- Every pending call has a timer, set no later than `timeout()` after the call. -/
def Budgeted (b : RevmBackend A) (s : State) : Prop :=
  ∀ c ∈ s.calls, c.phase.pending = true →
    ∃ deadline, c.phase.timer = some deadline ∧ deadline ≤ c.made + b.timeout.toNat

/-- A call that asks for its permit finds one available. -/
def FindsPermit (s : State) (e : Event) : Prop := ∀ i, e = .act i .ask → 0 < s.available

/-- What is true of a call made at `made` if no call has had to wait for its permit: it still runs
at the time it was made, or its timer is set in time, or it is over. -/
def Phase.OnTime (b : RevmBackend A) (now made : Nat) : Phase → Prop
  | called | holding | spawned .arming _ => made = now
  | waiting | granted => False
  | spawned (.awaiting deadline) _ => deadline ≤ made + b.timeout.toNat
  | cancelled | spawned (.returned _) _ | spawned .cancelled _ => True

def OnTime (b : RevmBackend A) (s : State) : Prop := ∀ c ∈ s.calls, c.phase.OnTime b s.now c.made

theorem acts_onTime {now made n n' : Nat} {a : Action} {p p' : Phase}
    (H : p.Acts b now a n p' n') (hp : p.OnTime b now made) (hask : a = .ask → 0 < n) :
    p'.OnTime b now made := by
  cases H with
  | wait => exact absurd (hask rfl) (Nat.lt_irrefl 0)
  | arm =>
    have hmade : made = now := hp
    exact hmade ▸ Nat.le_refl _
  | grant | resume | giveBack => exact hp.elim
  | join | elapse | leave | detach => trivial
  | acquire | spawn => exact hp
  | @finish _ caller _ => cases caller <;> exact hp

/-- A pause of all calls is in time for those that are on time. -/
theorem Phase.OnTime.tick {now made ms : Nat} {p : Phase} (h : p.OnTime b now made)
    (hrunning : p.running = false) : p.OnTime b (now + ms) made := by
  cases p with
  | called | holding => cases hrunning
  | waiting | granted => exact h.elim
  | cancelled => trivial
  | spawned caller closure =>
    cases caller with
    | arming => cases hrunning
    | awaiting | returned | cancelled => exact h

theorem Phase.OnTime.budgeted {now made : Nat} {p : Phase} (h : p.OnTime b now made)
    (hpending : p.pending = true) :
    ∃ deadline, p.timer = some deadline ∧ deadline ≤ made + b.timeout.toNat := by
  cases p with
  | called | holding | cancelled => cases hpending
  | waiting | granted => exact h.elim
  | spawned caller closure =>
    cases caller with
    | awaiting deadline => exact ⟨deadline, rfl, h⟩
    | arming | returned | cancelled => cases hpending

theorem next_onTime (hs : OnTime b s) (he : FindsPermit s e) (H : s.next b e = some s') :
    OnTime b s' := by
  obtain ⟨-, rfl⟩ | ⟨i, a, c, phase, available, rfl, hc, hact, rfl⟩ | ⟨ms, -, hrunning, rfl⟩ :=
    next_cases H
  · intro c hc
    rcases List.mem_append.mp hc with hc | hc
    · exact hs c hc
    · cases List.mem_singleton.mp hc
      rfl
  · intro c' hc'
    rcases List.mem_or_eq_of_mem_set hc' with hc' | rfl
    · exact hs c' hc'
    · have hask : a = .ask → 0 < s.available := fun ha => he i (ha ▸ rfl)
      exact acts_onTime hact (hs c (List.mem_of_getElem? hc)) hask
  · intro c hc
    exact (hs c hc).tick (hrunning c hc)

/-- A call that has to wait for its permit is pending without a timer. -/
theorem not_budgeted_of_waits (H : s.next b e = some s') (he : ¬FindsPermit s e) :
    ¬Budgeted b s' := by
  obtain ⟨i, he⟩ := Classical.not_forall.mp he
  obtain ⟨rfl, havailable⟩ := Classical.not_imp.mp he
  obtain ⟨⟨⟩, -⟩ | ⟨_, _, ⟨made, p⟩, phase, available, ⟨⟩, hc, hact, rfl⟩ | ⟨ms, ⟨⟩, -⟩ :=
    next_cases H
  rw [Nat.eq_zero_of_not_pos havailable] at hact
  cases hact
  obtain ⟨hi, -⟩ := List.getElem?_eq_some_iff.mp hc
  intro hB
  obtain ⟨deadline, htimer, -⟩ := hB _ (List.mem_set hi _) rfl
  cases htimer

/-- All pending calls have their timers throughout a run just when every call finds a permit. -/
theorem budgeted_iff {steps : List (State × Event)} (H : b.system.Run steps s) :
    System.Throughout (Budgeted b) steps s ↔ System.Meets FindsPermit steps := by
  refine H.throughout_iff (I := OnTime b) (fun h => ?_) next_onTime
    (fun hs c hc => (hs c hc).budgeted) not_budgeted_of_waits
  cases h
  exact nofun

/-- A closure that never ends keeps the next call waiting without a deadline. -/
theorem not_budgeted_hanging : ¬∀ (b : RevmBackend Fractions.exact) steps s,
    b.system.Run steps s → Budgeted b s := by
  intro h
  obtain ⟨steps, H⟩ : ∃ steps, hangingBackend.system.Run steps _ :=
    System.exists_run [.call, .act 0 .ask, .act 0 .spawn, .act 0 .arm, .tick 50, .act 0 .elapse,
      .call, .act 1 .ask, .tick 5000] rfl
  obtain ⟨deadline, htimer, -⟩ := h _ _ _ H ⟨50, .waiting⟩ (.tail _ (.head _)) rfl
  cases htimer

/-- A call that is made when the one before it has ended finds the permit. -/
theorem budgeted_iff_one_by_one : ∃ steps s, hangingBackend.system.Run steps s ∧
    s.calls.length = 2 ∧ System.Throughout (Budgeted hangingBackend) steps s := by
  have hcall : hangingBackend.system.Run _ _ := .step (e := Event.call) (.init rfl) rfl
  have hask : hangingBackend.system.Run _ _ := .step (e := Event.act 0 .ask) hcall rfl
  have hspawn : hangingBackend.system.Run _ _ := .step (e := Event.act 0 .spawn) hask rfl
  have hfinish : hangingBackend.system.Run _ _ :=
    .step (e := Event.act 0 (.finish .panicked)) hspawn rfl
  have hcall' : hangingBackend.system.Run _ _ := .step (e := Event.call) hfinish rfl
  have hask' : hangingBackend.system.Run _ _ := .step (e := Event.act 1 .ask) hcall' rfl
  refine ⟨_, _, hask', rfl, (budgeted_iff hask').mpr ?_⟩
  simp [System.Meets, FindsPermit, start, hangingBackend]

end Driftbrake.RevmBackend
