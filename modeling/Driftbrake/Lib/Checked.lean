import Mathlib.Data.List.Forall2

/-!
# Computations that fail or panic

`Checked ε` is the monad of functions that return an `Except ε` and can panic: `none` is a panic.
`x.Returns a` says that `x` comes to the value `a`; the rules are about the operations of the monad,
so that what a parser accepts is read off its text.
-/

namespace Driftbrake

abbrev Checked (ε : Type) := ExceptT ε Option

namespace Checked

variable {ε α β : Type}

def panic : Checked ε α := ExceptT.mk none

def ofExcept (x : Except ε α) : Checked ε α := ExceptT.mk (some x)

/-- `Option::ok_or`. -/
def okOr (x : Option α) (e : ε) : Checked ε α :=
  match x with
  | some a => pure a
  | none => throw e

def Returns (x : Checked ε α) (a : α) : Prop := x.run = some (.ok a)

variable {x : Checked ε α} {a a' : α} {b : β}

@[simp] theorem returns_pure : Returns (pure a : Checked ε α) a' ↔ a = a' := by
  constructor
  · intro h
    cases h
    rfl
  · rintro rfl
    rfl

@[simp] theorem not_returns_throw {e : ε} : ¬Returns (throw e : Checked ε α) a := nofun

@[simp] theorem not_returns_panic : ¬Returns (panic : Checked ε α) a := nofun

@[simp] theorem returns_ofExcept {r : Except ε α} : Returns (ofExcept r) a ↔ r = .ok a := by
  simp [Returns, ofExcept]

@[simp] theorem returns_okOr {o : Option α} {e : ε} : Returns (okOr o e) a ↔ o = some a := by
  cases o with
  | none => simp [okOr]
  | some a' => simp [okOr]

@[simp] theorem returns_bind {f : α → Checked ε β} :
    Returns (x >>= f) b ↔ ∃ a, Returns x a ∧ Returns (f a) b := by
  have hbind : (x >>= f).run = x.run.bind fun r =>
      match r with
      | .ok a => (f a).run
      | .error e => some (.error e) := rfl
  rw [Returns, hbind]
  cases hx : x.run with
  | none => simp [Returns, hx]
  | some r =>
    cases r with
    | error e => simp [Returns, hx]
    | ok a => simp [Returns, hx]

/-- Another name for the errors makes no difference to a value. -/
theorem returns_mapError {ε' : Type} {f : ε → ε'} :
    Returns (ExceptT.mk (x.run.map (Except.mapError f)) : Checked ε' α) a ↔ Returns x a := by
  rw [Returns, Returns, ExceptT.run_mk]
  rcases x.run with _ | e | a'
  · simp
  · simp [Except.mapError]
  · simp [Except.mapError]

/-- A list is read element by element. -/
theorem returns_mapM {f : α → Checked ε β} {l : List α} {bs : List β} :
    Returns (l.mapM f) bs ↔ List.Forall₂ (fun a b => Returns (f a) b) l bs := by
  induction l generalizing bs with
  | nil => simp [eq_comm]
  | cons a l ih =>
    simp only [List.mapM_cons, returns_bind, returns_pure, List.forall₂_cons_left_iff, ih]
    constructor
    · rintro ⟨b, hb, bs', hbs, rfl⟩
      exact ⟨b, bs', hb, hbs, rfl⟩
    · rintro ⟨b, bs', hb, hbs, rfl⟩
      exact ⟨b, hb, bs', hbs, rfl⟩

end Checked

end Driftbrake
