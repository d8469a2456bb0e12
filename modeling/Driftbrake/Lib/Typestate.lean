import Driftbrake.Lib.Prog

/-!
# Typestates

A typestate says which operations a program may perform next, and in which state each reply leaves
it. `p.Obeys T Q s` is the judgement that `p` keeps to the typestate `T` from `s` on, whatever the
replies are, and ends in a state that `Q` relates to its result. As it is about all replies, it says
something of a program whose operations are interleaved with those of others, or fail.

`p.Uses φ Q` is the simpler judgement that all operations of `p` have the property `φ` and all its
results the property `Q`; a typestate that such operations do not change is kept to by `p`
(`Uses.obeys`).
-/

namespace Driftbrake

structure Typestate (Op : Type → Type) (S : Type) where
  allows : {β : Type} → S → Op β → Prop
  next : {β : Type} → S → Op β → β → S

namespace Prog

variable {Op : Type → Type} {S α β ε : Type}

def Obeys (T : Typestate Op S) (Q : S → α → Prop) : S → Prog Op α → Prop
  | s, .pure a => Q s a
  | s, .call o k => T.allows s o ∧ ∀ r, Obeys T Q (T.next s o r) (k r)

def Uses (φ : {β : Type} → Op β → Prop) (Q : α → Prop) : Prog Op α → Prop
  | .pure a => Q a
  | .call o k => φ o ∧ ∀ r, Uses φ Q (k r)

section
variable {T : Typestate Op S} {Q : S → α → Prop} {R : S → β → Prop} {s : S}

theorem Obeys.bind {p : Prog Op α} {f : α → Prog Op β} (hp : Obeys T Q s p)
    (hf : ∀ s a, Q s a → Obeys T R s (f a)) : Obeys T R s (p >>= f) := by
  induction p generalizing s with
  | pure a => exact hf s a hp
  | call o k ih => exact ⟨hp.1, fun r => ih r (hp.2 r)⟩

theorem Obeys.perform {o : Op β} {f : β → Prog Op α} (ho : T.allows s o)
    (hf : ∀ r, Obeys T Q (T.next s o r) (f r)) : Obeys T Q s (perform o >>= f) :=
  ⟨ho, hf⟩

theorem Obeys.map {p : Prog Op α} {f : α → β} (hp : Obeys T Q s p)
    (hf : ∀ s a, Q s a → R s (f a)) : Obeys T R s (f <$> p) :=
  hp.bind hf

end

variable {φ : {β : Type} → Op β → Prop} {Q R' : α → Prop} {R : β → Prop}

/-- Operations that do not change the typestate. -/
theorem Uses.obeys {T : Typestate Op S} {s : S} {p : Prog Op α} (hp : p.Uses φ Q)
    (hφ : ∀ {β : Type} {o : Op β}, φ o → T.allows s o ∧ ∀ r, T.next s o r = s) :
    Obeys T (fun s' a => s' = s ∧ Q a) s p := by
  induction p with
  | pure a => exact ⟨rfl, hp⟩
  | call o k ih =>
    refine ⟨(hφ hp.1).1, fun r => ?_⟩
    rw [(hφ hp.1).2 r]
    exact ih r (hp.2 r)

theorem Uses.bind {p : Prog Op α} {f : α → Prog Op β} (hp : p.Uses φ Q)
    (hf : ∀ a, Q a → (f a).Uses φ R) : (p >>= f).Uses φ R := by
  induction p with
  | pure a => exact hf a hp
  | call o k ih => exact ⟨hp.1, fun r => ih r (hp.2 r)⟩

theorem Uses.mono {ψ : {β : Type} → Op β → Prop} {p : Prog Op α} (hp : p.Uses φ Q)
    (hφ : ∀ {β : Type} {o : Op β}, φ o → ψ o) (hQ : ∀ a, Q a → R' a) : p.Uses ψ R' := by
  induction p with
  | pure a => exact hQ a hp
  | call o k ih => exact ⟨hφ hp.1, fun r => ih r (hp.2 r)⟩

section
variable {σ : Type} {h : Handler Op σ} {I : σ → Prop} {s t : σ} {p : Prog Op α} {a : α}

/-- What the operations of a program preserve, its runs preserve. -/
theorem Uses.run_inv (hp : p.Uses φ Q)
    (hstep : ∀ {β : Type} {o : Op β} {s}, φ o → I s → I (h o s).2) (hrun : p.run h s = (a, t))
    (hs : I s) : I t := by
  induction p generalizing s with
  | pure a =>
    cases hrun
    exact hs
  | call o k ih => exact ih _ (hp.2 _) hrun (hstep hp.1 hs)

theorem Uses.result (hp : p.Uses φ Q) (hrun : p.run h s = (a, t)) : Q a := by
  induction p generalizing s with
  | pure a =>
    cases hrun
    exact hp
  | call o k ih => exact ih _ (hp.2 _) hrun

end

/-! ## Programs that can fail -/

/-- An error has the property `E`. -/
def OnError (E : ε → Prop) : Except ε α → Prop
  | .error e => E e
  | .ok _ => True

variable {E : ε → Prop}

theorem uses_pureE (a : α) :
    Uses φ (OnError E) (ExceptT.run (Pure.pure a : ExceptT ε (Prog Op) α)) :=
  trivial

theorem uses_throwE {e : ε} (he : E e) :
    Uses φ (OnError E) (ExceptT.run (throw e : ExceptT ε (Prog Op) α)) :=
  he

theorem Uses.bindE {p : ExceptT ε (Prog Op) α} {f : α → ExceptT ε (Prog Op) β}
    (hp : p.run.Uses φ (OnError E)) (hf : ∀ a, (f a).run.Uses φ (OnError E)) :
    (p >>= f).run.Uses φ (OnError E) := by
  refine Uses.bind hp fun r hr => ?_
  cases r with
  | ok a => exact hf a
  | error e => exact hr

theorem uses_attempt {γ : Type} {wrap : γ → ε} {o : Op (Except γ α)} (ho : φ o)
    (hwrap : ∀ e, E (wrap e)) : (attempt wrap o).run.Uses φ (OnError E) := by
  refine ⟨ho, fun r => ?_⟩
  cases r with
  | ok a => trivial
  | error e => exact hwrap e

theorem uses_liftE {o : Op α} (ho : φ o) :
    Uses φ (OnError E) (ExceptT.run (liftM (Prog.perform o) : ExceptT ε (Prog Op) α)) :=
  ⟨ho, fun _ => trivial⟩

end Prog

end Driftbrake
