import Driftbrake.Lib.Prog

/-!
# What a program does, told by its trace

`p.Does h tr Q` says that a run of `p` behind the events `tr`, from any state of the handler, leaves
events and a result that `Q` relates. The rules follow the syntax of programs, so that an invariant
of the events is carried through a program one operation at a time; `Does.loop` is the rule for a
loop, which needs nothing but that its body keeps the invariant.
-/

namespace Driftbrake

/-- The part of a handler that is about some of its operations. -/
def Handler.restrict {Op Op' : Type → Type} {σ : Type} (e : {β : Type} → Op β → Op' β)
    (h : Handler Op' σ) : Handler Op σ :=
  ⟨fun o => h (e o)⟩

namespace Prog

variable {Op Op' : Type → Type} {σ α β ε R S : Type} {h : Handler Op σ}
  {tr : List (Event Op)}

def Does (h : Handler Op σ) (tr : List (Event Op)) (p : Prog Op α)
    (Q : List (Event Op) → α → Prop) : Prop :=
  ∀ s, Q (tr ++ p.trace h s) (p.run h s).1

section
variable {Q Q' : List (Event Op) → α → Prop} {R : List (Event Op) → β → Prop}

theorem does_pure {a : α} (ha : Q tr a) : Does h tr (Pure.pure a) Q := by
  intro s
  rw [trace_pure, List.append_nil]
  exact ha

theorem does_perform {o : Op α} (ho : ∀ r, Q (tr ++ [⟨o, r⟩]) r) : Does h tr (perform o) Q :=
  fun s => ho (h o s).1

theorem Does.bind {p : Prog Op α} {f : α → Prog Op β}
    (hp : Does h tr p fun tr' a => Does h tr' (f a) R) : Does h tr (p >>= f) R := by
  intro s
  rw [trace_bind, run_bind, ← List.append_assoc]
  exact hp s _

theorem Does.mono {p : Prog Op α} (hp : Does h tr p Q) (hQ : ∀ {tr a}, Q tr a → Q' tr a) :
    Does h tr p Q' :=
  fun s => hQ (hp s)

end

/-! ## Programs that can fail -/

/-- A result has the property `Q` and an error the property `E`. -/
def Split (Q : List (Event Op) → α → Prop) (E : List (Event Op) → ε → Prop)
    (tr : List (Event Op)) : Except ε α → Prop
  | .ok a => Q tr a
  | .error e => E tr e

@[simp] theorem split_ok {Q : List (Event Op) → α → Prop} {E : List (Event Op) → ε → Prop} {a : α} :
    Split Q E tr (.ok a) ↔ Q tr a := .rfl

@[simp] theorem split_error {Q : List (Event Op) → α → Prop} {E : List (Event Op) → ε → Prop}
    {e : ε} : Split Q E tr (.error e) ↔ E tr e := .rfl

section
variable {Q : List (Event Op) → Except ε α → Prop} {R : List (Event Op) → Except ε β → Prop}

theorem does_pureE {a : α} (ha : Q tr (.ok a)) :
    Does h tr (ExceptT.run (Pure.pure a : ExceptT ε (Prog Op) α)) Q :=
  does_pure ha

theorem does_throwE {e : ε} (he : Q tr (.error e)) :
    Does h tr (ExceptT.run (throw e : ExceptT ε (Prog Op) α)) Q :=
  does_pure he

theorem Does.bindE {p : ExceptT ε (Prog Op) α} {f : α → ExceptT ε (Prog Op) β}
    (hp : Does h tr p.run
      (Split (fun tr' a => Does h tr' (f a).run R) fun tr' e => R tr' (.error e))) :
    Does h tr (p >>= f).run R := by
  refine Does.bind (hp.mono ?_)
  intro tr' r hr
  cases r with
  | ok a => exact hr
  | error e => exact does_pure hr

theorem does_attempt {γ : Type} {wrap : γ → ε} {o : Op (Except γ α)}
    (hok : ∀ a, Q (tr ++ [⟨o, .ok a⟩]) (.ok a))
    (herr : ∀ e, Q (tr ++ [⟨o, .error e⟩]) (.error (wrap e))) :
    Does h tr (attempt wrap o).run Q := by
  refine Does.bind (does_perform fun r => ?_)
  cases r with
  | ok a => exact does_pure (hok a)
  | error e => exact does_pure (herr e)

theorem does_liftE {p : Prog Op α} (hp : Does h tr p fun tr' a => Q tr' (.ok a)) :
    Does h tr (ExceptT.run (liftM p : ExceptT ε (Prog Op) α)) Q := by
  refine Does.bind (hp.mono ?_)
  intro tr' a ha
  exact does_pure ha

end

/-! ## Loops -/

/-- At most `n` rounds of a loop that its body leaves by an error. -/
def loop (body : S → ExceptT R (Prog Op) S) : Nat → S → ExceptT R (Prog Op) S
  | 0, s => Pure.pure s
  | n + 1, s => do loop body n (← body s)

/-- What the body keeps, with the number of rounds, holds when the loop has not ended, and where the
body leaves it the loop ends. -/
theorem does_loop_counted {I : Nat → List (Event Op) → S → Prop} {J : List (Event Op) → R → Prop}
    {body : S → ExceptT R (Prog Op) S}
    (keep : ∀ {k tr s}, I k tr s → Does h tr (body s).run (Split (I (k + 1)) J)) {k n : Nat} {s : S}
    (hs : I k tr s) : Does h tr (loop body n s).run (Split (I (k + n)) J) := by
  induction n generalizing k tr s with
  | zero => exact does_pureE hs
  | succ n ih =>
    refine Does.bindE ((keep hs).mono ?_)
    intro tr' r hr
    cases r with
    | ok s' =>
      rw [show k + (n + 1) = k + 1 + n by omega]
      exact ih hr
    | error e => exact hr

theorem does_loop {I : List (Event Op) → S → Prop} {J : List (Event Op) → R → Prop}
    {body : S → ExceptT R (Prog Op) S}
    (keep : ∀ {tr s}, I tr s → Does h tr (body s).run (Split I J)) {n : Nat} {s : S}
    (hs : I tr s) : Does h tr (loop body n s).run (Split I J) :=
  does_loop_counted (I := fun _ => I) keep (k := 0) hs

/-! ## The state behind a part of a trace -/

/-- Where every operation keeps what relates the state to the events so far, an event is the reply
in a state that is so related to the events in front of it. -/
theorem exists_state_of_trace {I : List (Event Op) → σ → Prop}
    (keep : ∀ {β : Type} (o : Op β) {tr : List (Event Op)} {s : σ}, I tr s →
      I (tr ++ [⟨o, (h o s).1⟩]) (h o s).2)
    {p : Prog Op α} {s : σ} (hs : I tr s) {before after : List (Event Op)} {e : Event Op}
    (hsplit : p.trace h s = before ++ e :: after) :
    ∃ s', I (tr ++ before) s' ∧ e.value = (h e.op s').1 := by
  induction p generalizing s tr before with
  | pure a => simp [trace] at hsplit
  | call o k ih =>
    cases before with
    | nil =>
      obtain ⟨rfl, -⟩ := List.cons_eq_cons.mp hsplit
      exact ⟨s, by rwa [List.append_nil], rfl⟩
    | cons first before =>
      obtain ⟨rfl, hrest⟩ := List.cons_eq_cons.mp hsplit
      rw [List.append_cons]
      exact ih _ (keep o hs) hrest

/-! ## What stands in front of an event -/

/-- Directly in front of every event with `P` stands one that `R` relates to it. -/
def Preceded {α : Type 1} (P : α → Prop) (R : α → α → Prop) (l : List α) : Prop :=
  ∀ before a after, l = before ++ a :: after → P a → ∃ before' b, before = before' ++ [b] ∧ R b a

section
variable {α : Type 1} {P : α → Prop} {R : α → α → Prop} {l l' : List α}

theorem preceded_of_forall (hl : ∀ a ∈ l, ¬P a) : Preceded P R l := by
  intro before a after h ha
  subst h
  exact absurd ha (hl a (by simp))

theorem preceded_pair {a b : α} (ha : ¬P a) (hab : R a b) : Preceded P R [a, b] := by
  intro before c after h hc
  cases before with
  | nil =>
    cases h
    exact absurd hc ha
  | cons x before =>
    rw [List.cons_append, List.cons_eq_cons] at h
    obtain ⟨hx, hrest⟩ := h
    cases before with
    | nil =>
      cases hrest
      exact ⟨[], a, by rw [hx, List.nil_append], hab⟩
    | cons y before =>
      rw [List.cons_append, List.cons_eq_cons] at hrest
      simp at hrest

theorem Preceded.append (H : Preceded P R l) (H' : Preceded P R l') : Preceded P R (l ++ l') := by
  intro before a after h ha
  rcases List.append_eq_append_iff.mp h with ⟨more, rfl, hl'⟩ | ⟨more, hl, hafter⟩
  · obtain ⟨before', b, rfl, hab⟩ := H' _ _ _ hl' ha
    exact ⟨l ++ before', b, (List.append_assoc ..).symm, hab⟩
  · cases more with
    | nil =>
      rw [List.append_nil] at hl
      rw [List.nil_append] at hafter
      subst hl
      obtain ⟨before', b, hnil, -⟩ := H' [] a after hafter.symm ha
      simp at hnil
    | cons c more =>
      obtain ⟨rfl, -⟩ := List.cons_eq_cons.mp hafter
      exact H _ _ _ hl ha

end

/-! ## Programs over a part of the operations -/

/-- A program over the signature `Op`, as one over a signature with these operations. -/
def embed (e : {β : Type} → Op β → Op' β) : Prog Op α → Prog Op' α
  | .pure a => .pure a
  | .call o k => .call (e o) fun b => (k b).embed e

/-- An event of the embedded program. -/
def Event.embed (e : {β : Type} → Op β → Op' β) (event : Event Op) : Event Op' :=
  ⟨e event.op, event.value⟩

variable {e : {β : Type} → Op β → Op' β} {h' : Handler Op' σ}

theorem run_embed (p : Prog Op α) (s : σ) :
    (p.embed e).run h' s = p.run (h'.restrict e) s := by
  induction p generalizing s with
  | pure a => rfl
  | call o k ih => exact ih _ _

theorem trace_embed (p : Prog Op α) (s : σ) :
    (p.embed e).trace h' s = (p.trace (h'.restrict e) s).map (Event.embed e) := by
  induction p generalizing s with
  | pure a => rfl
  | call o k ih => exact congrArg (_ :: ·) (ih _ _)

/-- What an embedded program does, told by its own trace. -/
theorem does_embed {tr : List (Event Op')} {p : Prog Op α} {Q : List (Event Op') → α → Prop}
    (hp : ∀ s, Q (tr ++ (p.trace (h'.restrict e) s).map (Event.embed e))
      (p.run (h'.restrict e) s).1) : Does h' tr (p.embed e) Q := by
  intro s
  rw [trace_embed, run_embed]
  exact hp s

end Prog

end Driftbrake
