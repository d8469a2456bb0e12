/-!
# Programs over a signature of operations

`Prog Op α` is a program that performs operations of a signature `Op : Type → Type` and returns
an `α`. The operations have no meaning of their own: a `Handler Op σ` executes one operation on a
state, `Prog.run` executes a whole program, and `Prog.Visits` is the set of states a run passes
through between two operations, which is what an observer (or a crash) can see of it, and
`Prog.trace` is the list of the operations performed and their replies.

Programs that can fail are `ExceptT ε (Prog Op)`; `run_bindE` is the rule for the `?` operator.
-/

namespace Driftbrake

/-- A program over the signature `Op`: a result, or an operation and what to do with its reply. -/
inductive Prog (Op : Type → Type) (α : Type) : Type 1
  | pure (a : α)
  | call {β : Type} (o : Op β) (k : β → Prog Op α)

/-- The execution of single operations on a state. -/
structure Handler (Op : Type → Type) (σ : Type) where
  step : {β : Type} → Op β → σ → β × σ

instance {Op : Type → Type} {σ : Type} :
    CoeFun (Handler Op σ) fun _ => {β : Type} → Op β → σ → β × σ := ⟨Handler.step⟩

namespace Prog

variable {Op : Type → Type} {σ α β ε : Type}

def bind : Prog Op α → (α → Prog Op β) → Prog Op β
  | .pure a, f => f a
  | .call o k, f => .call o fun b => (k b).bind f

/-- The program that performs one operation. -/
def perform (o : Op α) : Prog Op α := .call o .pure

instance : Monad (Prog Op) where
  pure := .pure
  bind := bind

/-- The state and the reply after the whole program. -/
def run (h : Handler Op σ) : Prog Op α → σ → α × σ
  | .pure a, s => (a, s)
  | .call o k, s => (k (h o s).1).run h (h o s).2

/-- `s'` is a state of the run of the program from `s`: the state before one of its operations,
or the one after the last. -/
def Visits (h : Handler Op σ) : Prog Op α → σ → σ → Prop
  | .pure _, s, s' => s' = s
  | .call o k, s, s' => s' = s ∨ (k (h o s).1).Visits h (h o s).2 s'

/-- An operation that was performed, with the reply it got. -/
structure Event (Op : Type → Type) where
  {reply : Type}
  op : Op reply
  value : reply

/-- The events of a run, in order. -/
def trace (h : Handler Op σ) : Prog Op α → σ → List (Event Op)
  | .pure _, _ => []
  | .call o k, s => ⟨o, (h o s).1⟩ :: (k (h o s).1).trace h (h o s).2

variable (h : Handler Op σ)

@[simp] theorem run_pure (a : α) (s : σ) : (Pure.pure a : Prog Op α).run h s = (a, s) := rfl

@[simp] theorem run_perform (o : Op α) (s : σ) : (perform o).run h s = h o s := rfl

/-- A handler that goes on from `g s` as another one does from `s`. -/
theorem run_simulates {τ : Type} {h : Handler Op σ} {h' : Handler Op τ} {g : σ → τ}
    (H : ∀ {β : Type} (o : Op β) (s : σ), h' o (g s) = ((h o s).1, g (h o s).2)) (p : Prog Op α)
    (s : σ) : p.run h' (g s) = ((p.run h s).1, g (p.run h s).2) := by
  induction p generalizing s with
  | pure a => rfl
  | call o k ih =>
    rw [run, H]
    exact ih _ _

@[simp] theorem run_bind (p : Prog Op α) (f : α → Prog Op β) (s : σ) :
    (p >>= f).run h s = (f (p.run h s).1).run h (p.run h s).2 := by
  induction p generalizing s with
  | pure a => rfl
  | call o k ih => exact ih (h o s).1 (h o s).2

theorem Visits.self (p : Prog Op α) (s : σ) : p.Visits h s s := by
  cases p with
  | pure a => rfl
  | call o k => exact .inl rfl

/-- The state after the last operation is a state of the run. -/
theorem Visits.run (p : Prog Op α) (s : σ) : p.Visits h s (p.run h s).2 := by
  induction p generalizing s with
  | pure a => rfl
  | call o k ih => exact .inr (ih (h o s).1 (h o s).2)

@[simp] theorem visits_pure {a : α} {s s' : σ} :
    (Pure.pure a : Prog Op α).Visits h s s' ↔ s' = s := .rfl

theorem visits_perform {o : Op α} {s s' : σ} :
    (perform o).Visits h s s' ↔ s' = s ∨ s' = (h o s).2 := .rfl

/-- A run of `p >>= f` is a run of `p` followed by one of `f`. -/
theorem visits_bind {p : Prog Op α} {f : α → Prog Op β} {s s' : σ} :
    (p >>= f).Visits h s s' ↔
      p.Visits h s s' ∨ (f (p.run h s).1).Visits h (p.run h s).2 s' := by
  induction p generalizing s with
  | pure a =>
    refine ⟨.inr, fun H => H.elim (fun H => ?_) id⟩
    cases (H : s' = s)
    exact Visits.self h (f a) s'
  | call o k ih =>
    refine Iff.trans (or_congr .rfl (ih (h o s).1)) ?_
    exact or_assoc.symm

instance : LawfulMonad (Prog Op) := LawfulMonad.mk' (Prog Op)
  (fun p => by
    show bind p (fun a => .pure a) = p
    induction p with
    | pure a => rfl
    | call o k ih => exact congrArg (call o) (funext ih))
  (fun a f => rfl)
  (fun p f g => by
    show bind (bind p f) g = bind p fun a => bind (f a) g
    induction p with
    | pure a => rfl
    | call o k ih => exact congrArg (call o) (funext ih))

@[simp] theorem run_map (f : α → β) (p : Prog Op α) (s : σ) :
    (f <$> p).run h s = (f (p.run h s).1, (p.run h s).2) :=
  run_bind h p (fun a => Pure.pure (f a)) s

/-- What is done with the result of a program is not seen while it runs. -/
theorem visits_map {f : α → β} {p : Prog Op α} {s s' : σ} :
    (f <$> p).Visits h s s' ↔ p.Visits h s s' := by
  show (p >>= fun a => Pure.pure (f a)).Visits h s s' ↔ _
  rw [visits_bind, visits_pure]
  exact or_iff_left_of_imp fun H => H ▸ Visits.run h p s

/-! ### Following a run

One operation or one program that is known to end in a state is passed; what is left is the run, or
the states, of what comes behind it. -/

section
variable {h} {o : Op α} {p : Prog Op α} {f : α → Prog Op β} {a : α} {s t s' : σ}

theorem run_step (ho : h o s = (a, t)) : (perform o >>= f).run h s = (f a).run h t := by
  rw [run_bind, run_perform, ho]

theorem run_seq (hp : p.run h s = (a, t)) : (p >>= f).run h s = (f a).run h t := by
  rw [run_bind, hp]

theorem Visits.of_run (hp : p.run h s = (a, t)) : p.Visits h s t := by
  have := Visits.run h p s
  rwa [hp] at this

theorem visits_step (ho : h o s = (a, t)) (H : (perform o >>= f).Visits h s s') :
    s' = s ∨ (f a).Visits h t s' := by
  rw [visits_bind, visits_perform, run_perform, ho] at H
  rcases H with (rfl | rfl) | H
  · exact .inl rfl
  · exact .inr (.self h (f a) _)
  · exact .inr H

theorem visits_seq (hp : p.run h s = (a, t)) (H : (p >>= f).Visits h s s') :
    p.Visits h s s' ∨ (f a).Visits h t s' := by
  rwa [visits_bind, hp] at H

end

@[simp] theorem trace_pure (a : α) (s : σ) : (Pure.pure a : Prog Op α).trace h s = [] := rfl

@[simp] theorem trace_perform (o : Op α) (s : σ) :
    (perform o).trace h s = [⟨o, (h o s).1⟩] := rfl

@[simp] theorem trace_bind (p : Prog Op α) (f : α → Prog Op β) (s : σ) :
    (p >>= f).trace h s = p.trace h s ++ (f (p.run h s).1).trace h (p.run h s).2 := by
  induction p generalizing s with
  | pure a => rfl
  | call o k ih => exact congrArg (_ :: ·) (ih (h o s).1 (h o s).2)

/-- The value of an event is the reply of the handler in some state. -/
theorem exists_of_mem_trace {p : Prog Op α} {s : σ} {e : Event Op} (he : e ∈ p.trace h s) :
    ∃ s', e.value = (h e.op s').1 := by
  induction p generalizing s with
  | pure a => cases he
  | call o k ih =>
    rcases List.mem_cons.mp he with rfl | he
    · exact ⟨s, rfl⟩
    · exact ih _ he

@[simp] theorem trace_map (f : α → β) (p : Prog Op α) (s : σ) :
    (f <$> p).trace h s = p.trace h s :=
  (trace_bind h p (fun a => Pure.pure (f a)) s).trans (List.append_nil _)

/-! ## Programs that can fail -/

/-- One operation that can fail, its error turned into one of the program's by `wrap`. -/
def attempt (wrap : ε → β) (o : Op (Except ε α)) : ExceptT β (Prog Op) α :=
  ExceptT.mk do
    match ← perform o with
    | .ok a => Pure.pure (.ok a)
    | .error e => Pure.pure (.error (wrap e))

@[simp] theorem run_liftE (p : Prog Op α) (s : σ) :
    (ExceptT.run (liftM p : ExceptT ε (Prog Op) α)).run h s =
      (.ok (p.run h s).1, (p.run h s).2) := by
  exact run_map h _ p s

/-- The rule of `?`: a failure ends the program in the state it has reached. -/
theorem run_bindE (p : ExceptT ε (Prog Op) α) (f : α → ExceptT ε (Prog Op) β) (s : σ) :
    (ExceptT.run (p >>= f)).run h s =
      match p.run.run h s with
      | (.ok a, s') => (f a).run.run h s'
      | (.error e, s') => (.error e, s') := by
  show (p.run >>= ExceptT.bindCont f).run h s = _
  rw [run_bind]
  rcases p.run.run h s with ⟨_ | _, _⟩ <;> rfl

theorem run_attempt (wrap : ε → β) (o : Op (Except ε α)) (s : σ) :
    (attempt wrap o).run.run h s = ((h o s).1.mapError wrap, (h o s).2) := by
  show Prog.run h (perform o >>= _) s = _
  rw [run_bind, run_perform]
  cases (h o s).1 <;> rfl

theorem visits_attempt {wrap : ε → β} {o : Op (Except ε α)} {s s' : σ} :
    (attempt wrap o).run.Visits h s s' ↔ s' = s ∨ s' = (h o s).2 := by
  show Prog.Visits h (perform o >>= _) s s' ↔ _
  rw [visits_bind, visits_perform, run_perform]
  cases (h o s).1 <;> simp

theorem visits_liftE {p : Prog Op α} {s s' : σ} :
    (ExceptT.run (liftM p : ExceptT ε (Prog Op) α)).Visits h s s' ↔ p.Visits h s s' := by
  exact visits_map h

/-- A run of `p >>= f` that `p` does not end is a run of `p` followed by one of `f`. -/
theorem visits_bindE {p : ExceptT ε (Prog Op) α} {f : α → ExceptT ε (Prog Op) β} {s s' : σ} :
    (ExceptT.run (p >>= f)).Visits h s s' ↔ p.run.Visits h s s' ∨
      match p.run.run h s with
      | (.ok a, t) => (f a).run.Visits h t s'
      | (.error _, t) => s' = t := by
  show (p.run >>= ExceptT.bindCont f).Visits h s s' ↔ _
  rw [visits_bind]
  rcases p.run.run h s with ⟨_ | _, _⟩ <;> rfl

end Prog

end Driftbrake
