/-!
# Runs of a transition system

A system has initial states and steps that are labelled with events. A run remembers its steps, each
as the state before it and the event, so that a condition on the steps of a run can be stated.
`Run.invariant` is the rule of invariants for the runs whose steps all meet a condition, and
`Run.throughout_iff` the one for a condition that a property of all states amounts to.
-/

namespace Driftbrake

universe u v

structure System (S : Type u) (E : Type v) where
  Init : S → Prop
  Step : S → E → S → Prop

namespace System

variable {S : Type u} {E : Type v}

/-- `s` is reached by the given steps. -/
inductive Run (T : System S E) : List (S × E) → S → Prop
  | init : T.Init s → Run T [] s
  | step : Run T steps s → T.Step s e s' → Run T (steps ++ [(s, e)]) s'

variable {T : System S E} {steps : List (S × E)} {s s' : S}

/-- The steps of a run all meet `C`. -/
def Meets (C : S → E → Prop) (steps : List (S × E)) : Prop := ∀ x ∈ steps, C x.1 x.2

/-- Every state of a run has the property `P`. -/
def Throughout (P : S → Prop) (steps : List (S × E)) (s : S) : Prop := (∀ x ∈ steps, P x.1) ∧ P s

theorem meets_append_singleton {C : S → E → Prop} {e : E} :
    Meets C (steps ++ [(s, e)]) ↔ Meets C steps ∧ C s e := by
  simp [Meets, or_imp, forall_and]

theorem throughout_append_singleton {P : S → Prop} {e : E} :
    Throughout P (steps ++ [(s, e)]) s' ↔ Throughout P steps s ∧ P s' := by
  simp [Throughout, or_imp, forall_and]

/-- What holds initially and is kept by the steps that meet `C` holds after a run of such steps. -/
theorem Run.invariant {C : S → E → Prop} {I : S → Prop} (init : ∀ {s}, T.Init s → I s)
    (keep : ∀ {s e s'}, I s → C s e → T.Step s e s' → I s') (H : T.Run steps s)
    (hC : Meets C steps) : I s := by
  induction H with
  | init h => exact init h
  | step _ hstep ih =>
    obtain ⟨hsteps, he⟩ := meets_append_singleton.mp hC
    exact keep (ih hsteps) he hstep

/-- The rule without a condition. -/
theorem Run.always {I : S → Prop} (init : ∀ {s}, T.Init s → I s)
    (keep : ∀ {s e s'}, I s → T.Step s e s' → I s') (H : T.Run steps s) : I s :=
  H.invariant (C := fun _ _ => True) init (fun h _ => keep h) fun _ _ => trivial

/-- What an invariant says of the steps that keep it. -/
theorem Run.meets {C D : S → E → Prop} {I : S → Prop} (init : ∀ {s}, T.Init s → I s)
    (keep : ∀ {s e s'}, I s → C s e → T.Step s e s' → I s') (hold : ∀ {s e}, I s → C s e → D s e)
    (H : T.Run steps s) (hC : Meets C steps) : Meets D steps := by
  induction H with
  | init => exact nofun
  | step hrun _ ih =>
    obtain ⟨hsteps, he⟩ := meets_append_singleton.mp hC
    exact meets_append_singleton.mpr ⟨ih hsteps, hold (hrun.invariant init keep hsteps) he⟩

/-- A property holds in all states of a run just when all steps meet `C`, if steps that do keep an
invariant from which it follows, and a step that does not breaks it. -/
theorem Run.throughout_iff {C : S → E → Prop} {I P : S → Prop} (init : ∀ {s}, T.Init s → I s)
    (keep : ∀ {s e s'}, I s → C s e → T.Step s e s' → I s') (hold : ∀ {s}, I s → P s)
    (broken : ∀ {s e s'}, T.Step s e s' → ¬C s e → ¬P s') (H : T.Run steps s) :
    Throughout P steps s ↔ Meets C steps := by
  induction H with
  | init h => exact iff_of_true ⟨nofun, hold (init h)⟩ nofun
  | step hrun hstep ih =>
    rw [throughout_append_singleton, meets_append_singleton, ih]
    refine and_congr_right fun hC => ⟨fun hP => ?_, fun he => ?_⟩
    · exact Classical.not_not.mp fun he => broken hstep he hP
    · exact hold (keep (hrun.invariant init keep hC) he hstep)

/-- If every event of the kind `P` is paid for by a potential `f`, to which an event of the kind `Q`
adds at most `k`, then a run has at most `k` times as many of `P` as of `Q`. -/
theorem Run.countP_le {P Q : E → Bool} {f : S → Nat} {k : Nat}
    (init : ∀ {s}, T.Init s → f s = 0)
    (pay : ∀ {s e s'}, T.Step s e s' →
      (P e).toNat + f s' ≤ f s + k * (Q e).toNat) (H : T.Run steps s) :
    (steps.map (·.2)).countP P + f s ≤ k * (steps.map (·.2)).countP Q := by
  induction H with
  | init h => simp [init h]
  | @step steps s e s' _ hstep ih =>
    have hpay := pay hstep
    have htoNat : ∀ b : Bool, b.toNat = if b then 1 else 0 := by decide
    rw [List.map_append, List.countP_append, List.countP_append, Nat.mul_add]
    simp only [List.map_cons, List.map_nil, List.countP_singleton, htoNat] at hpay ⊢
    omega

/-- What a step never takes back is true from then on. -/
theorem Run.final {I : S → Prop} (keep : ∀ {s e s'}, I s → T.Step s e s' → I s')
    (H : T.Run steps s) {x : S × E} (hx : x ∈ steps) (h : I x.1) : I s := by
  induction H with
  | init => cases hx
  | step _ hstep ih =>
    rcases List.mem_append.mp hx with hx | hx
    · exact keep (ih hx) hstep
    · cases List.mem_singleton.mp hx
      exact keep h hstep

/-! ## Deterministic systems -/

/-- The system with one initial state whose events have at most one outcome each. -/
def ofNext (init : S) (next : E → S → Option S) : System S E where
  Init s := s = init
  Step s e s' := next e s = some s'

theorem Run.follow {next : E → S → Option S} {init : S} {events : List E}
    (H : (ofNext init next).Run steps s) (h : events.foldlM (fun s e => next e s) s = some s') :
    ∃ steps', (ofNext init next).Run steps' s' := by
  induction events generalizing s steps with
  | nil =>
    cases h
    exact ⟨steps, H⟩
  | cons e events ih =>
    obtain ⟨t, hnext, hrest⟩ := Option.bind_eq_some_iff.mp h
    exact ih (.step H hnext) hrest

/-- A list of events that can be executed is a run. -/
theorem exists_run {next : E → S → Option S} {init : S} (events : List E)
    (h : events.foldlM (fun s e => next e s) init = some s) :
    ∃ steps, (ofNext init next).Run steps s :=
  Run.follow (.init rfl) h

end System

end Driftbrake
