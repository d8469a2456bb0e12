import Driftbrake.Simulation.Permits

/-!
# Results and progress

What a call of `simulate` returns is the result of its own closure, or a timeout that is due, and it
is final (`results_own`). A call takes a bounded number of actions, and where no action is possible
every call is over and every permit is back (`backend_drains`): no schedule of the calls, the
closures and the semaphore ends in a deadlock.
-/

namespace Driftbrake.RevmBackend

variable {F : Type} {A : Fractions F} {b : RevmBackend A} {s s' : State} {e : Event}

/-! ## Results -/

/-- A call made at `made` may return this while its closure stands like that. -/
def Own (b : RevmBackend A) (now made : Nat) (closure : Closure)
    (result : Except SimError RawSimOutput) : Prop :=
  (∃ o, closure = .finished o ∧ result = o.reply) ∨
    (result = .error (.timeout b.timeout) ∧ made + b.timeout.toNat ≤ now)

/-- What is true of a call made at `made`. -/
def Phase.Sound (b : RevmBackend A) (now made : Nat) : Phase → Prop
  | spawned (.awaiting deadline) _ => made + b.timeout.toNat ≤ deadline
  | spawned (.returned result) closure => Own b now made closure result
  | _ => True

theorem Own.later {now now' made : Nat} {closure : Closure} {result : Except SimError RawSimOutput}
    (h : Own b now made closure result) (hle : now ≤ now') : Own b now' made closure result :=
  h.imp_right fun h => ⟨h.1, h.2.trans hle⟩

theorem Phase.Sound.later {now now' made : Nat} {p : Phase} (h : p.Sound b now made)
    (hle : now ≤ now') : p.Sound b now' made := by
  cases p with
  | spawned caller closure =>
    cases caller with
    | returned result => exact Own.later h hle
    | awaiting deadline => exact h
    | arming | cancelled => trivial
  | called | waiting | granted | holding | cancelled => trivial

theorem acts_sound {now made n n' : Nat} {a : Action} {p p' : Phase} (H : p.Acts b now a n p' n')
    (hp : p.Sound b now made) (hmade : made ≤ now) : p'.Sound b now made := by
  cases H with
  | @finish _ caller _ =>
    cases caller with
    | arming | cancelled => trivial
    | awaiting deadline => exact hp
    | returned result =>
      -- the closure was still running, so the result is a timeout
      rcases hp with ⟨o, ho, -⟩ | hp
      · cases ho
      · exact .inr hp
  | arm => exact Nat.add_le_add_right hmade _
  | @join deadline o => exact .inl ⟨o, rfl, rfl⟩
  | elapse hdue => exact .inr ⟨rfl, Nat.le_trans hp hdue⟩
  | acquire | wait | grant | resume | spawn | leave | giveBack | detach => trivial

/-- Every call is sound and was made in the past. -/
def Sound (b : RevmBackend A) (s : State) : Prop :=
  ∀ c ∈ s.calls, c.made ≤ s.now ∧ c.phase.Sound b s.now c.made

theorem next_sound (hs : Sound b s) (H : s.next b e = some s') : Sound b s' := by
  obtain ⟨-, rfl⟩ | ⟨i, a, c, phase, available, -, hc, hact, rfl⟩ | ⟨ms, -, -, rfl⟩ := next_cases H
  · intro c hc
    rcases List.mem_append.mp hc with hc | hc
    · exact hs c hc
    · cases List.mem_singleton.mp hc
      exact ⟨Nat.le_refl _, trivial⟩
  · intro c' hc'
    rcases List.mem_or_eq_of_mem_set hc' with hc' | rfl
    · exact hs c' hc'
    · obtain ⟨hmade, hsound⟩ := hs c (List.mem_of_getElem? hc)
      exact ⟨hmade, acts_sound hact hsound hmade⟩
  · intro c hc
    obtain ⟨hmade, hsound⟩ := hs c hc
    exact ⟨hmade.trans (Nat.le_add_right _ _), hsound.later (Nat.le_add_right _ _)⟩

/-- What a call has returned. -/
def Phase.result? : Phase → Option (Except SimError RawSimOutput)
  | spawned (.returned result) _ => some result
  | _ => none

def State.result? (s : State) (i : Nat) : Option (Except SimError RawSimOutput) :=
  s.calls[i]?.bind (·.phase.result?)

theorem acts_result {now n n' : Nat} {a : Action} {p p' : Phase} (H : p.Acts b now a n p' n')
    {result : Except SimError RawSimOutput} (hp : p.result? = some result) :
    p'.result? = some result := by
  cases H with
  | @finish _ caller _ => cases caller <;> exact hp
  | acquire | wait | grant | resume | spawn | arm | join | elapse | leave | giveBack | detach =>
    cases hp

theorem next_result {i : Nat} {result : Except SimError RawSimOutput}
    (hs : s.result? i = some result) (H : s.next b e = some s') : s'.result? i = some result := by
  obtain ⟨c, hc, hresult⟩ := Option.bind_eq_some_iff.mp hs
  obtain ⟨-, rfl⟩ | ⟨j, a, c', phase, available, -, hc', hact, rfl⟩ | ⟨ms, -, -, rfl⟩ :=
    next_cases H
  · have hlt := (List.getElem?_eq_some_iff.mp hc).1
    rw [State.result?, List.getElem?_append_left hlt, hc]
    exact hresult
  · rw [State.result?, List.getElem?_set]
    split
    · rename_i hij
      subst hij
      rw [hc] at hc'
      cases hc'
      rw [if_pos (List.getElem?_eq_some_iff.mp hc).1]
      exact acts_result hact hresult
    · exact hs
  · exact hs

/-- **A call returns the result of its own closure, or a timeout that is due, and once.** In every
run, what a call has returned is what its closure ended with, or a timeout, at least the budget
after the call was made; and a result that has been returned is not changed, whatever the closure
does behind a timeout. -/
theorem results_own {steps : List (State × Event)} (H : b.system.Run steps s) :
    (∀ (i : Nat) (c : Call) (closure : Closure) (result : Except SimError RawSimOutput),
      s.calls[i]? = some c → c.phase = .spawned (.returned result) closure →
        Own b s.now c.made closure result) ∧
    ∀ x ∈ steps, ∀ i result, x.1.result? i = some result → s.result? i = some result := by
  constructor
  · have hsound : Sound b s := by
      refine H.always (fun h => ?_) fun hs hstep => next_sound hs hstep
      cases h
      exact nofun
    rintro i ⟨made, phase⟩ closure result hc rfl
    exact (hsound _ (List.mem_of_getElem? hc)).2
  · intro x hx i result hresult
    exact H.final (I := fun s => s.result? i = some result)
      (fun hs hstep => next_result hs hstep) hx
      hresult

/-- A closure that ends behind the timeout of its call does not change the result. -/
theorem results_own_late : ∃ steps s, hangingBackend.system.Run steps s ∧
    s.result? 0 = some (.error (.timeout 50)) ∧
    ∀ x ∈ steps, ∀ i result, x.1.result? i = some result → s.result? i = some result := by
  obtain ⟨steps, H⟩ : ∃ steps, hangingBackend.system.Run steps _ :=
    System.exists_run [.call, .act 0 .ask, .act 0 .spawn, .act 0 .arm, .tick 50, .act 0 .elapse,
      .act 0 (.finish .panicked)] rfl
  exact ⟨steps, _, H, rfl, (results_own H).2⟩

/-! ## Progress -/

/-- The number of actions that a call can still take. -/
def Phase.rank : Phase → Nat
  | called => 7
  | waiting => 6
  | granted => 5
  | holding => 4
  | cancelled => 0
  | spawned caller closure =>
    closure.isRunning.toNat + match caller with
      | .arming => 2
      | .awaiting _ => 1
      | .returned _ | .cancelled => 0

def State.rank (s : State) : Nat := (s.calls.map (·.phase.rank)).sum

def Event.isAct : Event → Bool
  | act .. => true
  | _ => false

def Event.isCall : Event → Bool
  | call => true
  | _ => false

theorem acts_rank {now n n' : Nat} {a : Action} {p p' : Phase} (H : p.Acts b now a n p' n') :
    p'.rank < p.rank := by
  cases H with
  | finish => simp [Phase.rank, Closure.isRunning]
  | _ => simp [Phase.rank, Closure.isRunning]

theorem sum_map_set_add {α : Type} {l : List α} {i : Nat} {x : α} (h : l[i]? = some x) (f : α → Nat)
    (y : α) : ((l.set i y).map f).sum + f x = (l.map f).sum + f y := by
  induction l generalizing i with
  | nil => cases h
  | cons a l ih =>
    cases i with
    | zero =>
      cases h
      simp only [List.set_cons_zero, List.map_cons, List.sum_cons]
      omega
    | succ i =>
      have hrest := ih h
      simp only [List.set_cons_succ, List.map_cons, List.sum_cons]
      omega

/-- An action is paid for by the rank of its call. -/
theorem next_rank (H : s.next b e = some s') :
    e.isAct.toNat + s'.rank ≤ s.rank + 7 * e.isCall.toNat := by
  obtain ⟨rfl, rfl⟩ | ⟨i, a, c, phase, available, rfl, hc, hact, rfl⟩ | ⟨ms, rfl, -, rfl⟩ :=
    next_cases H
  · simp [State.rank, Event.isAct, Event.isCall, Phase.rank]
  · have hsum := sum_map_set_add hc (·.phase.rank) { c with phase }
    have hlt := acts_rank hact
    simp only [State.rank, Event.isAct, Event.isCall, Bool.toNat_true, Bool.toNat_false] at hsum ⊢
    omega
  · simp [State.rank, Event.isAct, Event.isCall]

/-- No action is possible, but for a caller that gives up. -/
def Quiescent (b : RevmBackend A) (s : State) : Prop :=
  ∀ i a, a ≠ .cancel → s.next b (.act i a) = none

/-- The call and its closure have come to an end. -/
def Phase.over : Phase → Bool
  | cancelled => true
  | spawned (.returned _) (.finished _) | spawned .cancelled (.finished _) => true
  | _ => false

/-- A call that cannot act waits for a permit that is not there, or is over. -/
theorem waiting_or_over {now n : Nat} {p : Phase}
    (h : ∀ a, a ≠ .cancel → p.act b now n a = none) : (p = .waiting ∧ n = 0) ∨ p.over = true := by
  cases p with
  | called =>
    have hask := h .ask nofun
    rw [Phase.act] at hask
    split at hask <;> cases hask
  | waiting =>
    have hgrant := h .grant nofun
    rw [Phase.act] at hgrant
    split at hgrant
    · cases hgrant
    · exact .inl ⟨rfl, by omega⟩
  | granted => cases h .resume nofun
  | holding => cases h .spawn nofun
  | cancelled => exact .inr rfl
  | spawned caller closure =>
    cases closure with
    | running => cases h (.finish .panicked) nofun
    | finished o =>
      cases caller with
      | arming => cases h .arm nofun
      | awaiting deadline => cases h .join nofun
      | returned | cancelled => exact .inr rfl

theorem Quiescent.act_eq_none (hs : Quiescent b s) {c : Call} (hc : c ∈ s.calls) {a : Action}
    (ha : a ≠ .cancel) : c.phase.act b s.now s.available a = none := by
  obtain ⟨i, hi⟩ := List.mem_iff_getElem?.mp hc
  have hnone := hs i a ha
  simp only [State.next, hi, Option.bind_eq_bind, Option.bind_some] at hnone
  cases hact : c.phase.act b s.now s.available a with
  | none => rfl
  | some after =>
    rw [hact] at hnone
    cases hnone

/-- A call that is over has no permit. -/
theorem Phase.permits_of_over {p : Phase} (h : p.over = true) :
    p.holdsPermit = false ∧ p.executing = false := by
  cases p with
  | spawned caller closure =>
    cases closure with
    | running => cases caller <;> cases h
    | finished o => exact ⟨rfl, rfl⟩
  | cancelled => exact ⟨rfl, rfl⟩
  | _ => cases h

theorem permits_sum {steps : List (State × Event)} (H : b.system.Run steps s) :
    s.available + s.holding + s.executing = b.concurrencyLimit := by
  refine H.always (I := fun s => s.available + s.holding + s.executing = b.concurrencyLimit)
    (fun h => ?_) fun hs hstep => (next_permits hstep).trans hs
  cases h
  rfl

/-- **The backend drains**: in every run there are at most seven actions for each call, and in a
state in which no action is possible every call and every closure is over and all permits are
available. So no order of the calls, the closures and the grants leaves a call waiting for ever,
unless a closure never ends. -/
theorem backend_drains {steps : List (State × Event)} (H : b.system.Run steps s) :
    (steps.map (·.2)).countP Event.isAct ≤ 7 * (steps.map (·.2)).countP Event.isCall ∧
      (Quiescent b s →
        (∀ c ∈ s.calls, c.phase.over = true) ∧ s.available = b.concurrencyLimit) := by
  constructor
  · have hle := H.countP_le (P := Event.isAct) (Q := Event.isCall) (f := State.rank)
      (fun h => by cases h; rfl) next_rank
    omega
  · intro hs
    have hcalls : ∀ c ∈ s.calls, (c.phase = .waiting ∧ s.available = 0) ∨ c.phase.over = true :=
      fun c hc => waiting_or_over fun a ha => hs.act_eq_none hc ha
    have hpermits : ∀ c ∈ s.calls, c.phase.holdsPermit = false ∧ c.phase.executing = false := by
      intro c hc
      rcases hcalls c hc with ⟨hwaiting, -⟩ | hover
      · rw [hwaiting]
        exact ⟨rfl, rfl⟩
      · exact Phase.permits_of_over hover
    have hholding : s.holding = 0 :=
      List.countP_eq_zero.mpr fun c hc => by simp [(hpermits c hc).1]
    have hexecuting : s.executing = 0 :=
      List.countP_eq_zero.mpr fun c hc => by simp [(hpermits c hc).2]
    have hsum := permits_sum H
    have hpos := b.limit_pos
    refine ⟨fun c hc => (hcalls c hc).resolve_left fun h => ?_, by omega⟩
    omega

/-- A call that has returned leaves nothing to do. -/
theorem backend_drains_one_call : ∃ steps s, hangingBackend.system.Run steps s ∧
    s.calls.length = 1 ∧ (∀ c ∈ s.calls, c.phase.over = true) ∧
    s.available = hangingBackend.concurrencyLimit := by
  obtain ⟨steps, H⟩ : ∃ steps, hangingBackend.system.Run steps _ :=
    System.exists_run [.call, .act 0 .ask, .act 0 .spawn, .act 0 .arm, .act 0 (.finish .panicked),
      .act 0 .join] rfl
  refine ⟨steps, _, H, rfl, (backend_drains H).2 fun i a ha => ?_⟩
  cases i with
  | zero => cases a <;> rfl
  | succ i => rfl

end Driftbrake.RevmBackend
