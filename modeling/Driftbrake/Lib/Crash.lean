import Driftbrake.Lib.FileSystem
import Driftbrake.Lib.Typestate

/-!
# Processes that die

A process can die between two operations, or inside a write of which only a part has reached the
file. `p.Dies w part v` says that a process that runs `p` from `w` can die in the state `v`, `part`
the bytes of the write that it has begun and not finished. With nothing begun these are the states
that the run visits (`dies_nil`), and a program that writes nothing never begins anything
(`Uses.dies_nil`).
-/

namespace Driftbrake

open FileSystem

variable {P : Type} [DecidableEq P] {α β ε : Type}

/-- Only `part` of what the operation writes has been written, and not nothing. -/
def FsOp.Torn : {β : Type} → FsOp P β → FileSystem P → List UInt8 → FileSystem P → Prop
  | _, .writeAll fd bs, w, part, v =>
    part <+: bs ∧ part ≠ bs ∧ part ≠ [] ∧ v = (exec (.writeAll fd part) w).2
  | _, _, _, _, _ => False

/-- The operation is no write. -/
def FsOp.WritesNothing {β : Type} : FsOp P β → Prop
  | .writeAll .. => False
  | _ => True

namespace Prog

/-- The process that runs the program can die in the state `v`. -/
def Dies : Prog (FsOp P) α → FileSystem P → List UInt8 → FileSystem P → Prop
  | .pure _, w, part, v => part = [] ∧ v = w
  | .call o k, w, part, v =>
    (part = [] ∧ v = w) ∨ o.Torn w part v ∨ (k (exec o w).1).Dies (exec o w).2 part v

variable {w v : FileSystem P} {part : List UInt8}

theorem Torn.ne_nil {o : FsOp P β} (h : o.Torn w part v) : part ≠ [] := by
  cases o with
  | writeAll fd bs => exact h.2.2.1
  | _ => cases h

theorem Dies.self (p : Prog (FsOp P) α) (w : FileSystem P) : p.Dies w [] w := by
  cases p with
  | pure a => exact ⟨rfl, rfl⟩
  | call o k => exact .inl ⟨rfl, rfl⟩

/-- A process that has begun no write dies in a state of its run. -/
theorem dies_nil {p : Prog (FsOp P) α} : p.Dies w [] v ↔ p.Visits exec w v := by
  induction p generalizing w with
  | pure a => exact and_iff_right rfl
  | call o k ih =>
    rw [Dies, Visits, ih, and_iff_right rfl]
    exact or_congr_right (or_iff_right fun h => Torn.ne_nil h rfl)

theorem Uses.dies_nil {Q : α → Prop} {p : Prog (FsOp P) α} (hp : p.Uses FsOp.WritesNothing Q)
    (h : p.Dies w part v) : part = [] := by
  induction p generalizing w with
  | pure a => exact h.1
  | call o k ih =>
    rcases h with ⟨hnil, _⟩ | htorn | h
    · exact hnil
    · cases o with
      | writeAll => exact hp.1.elim
      | _ => cases htorn
    · exact ih _ (hp.2 _) h

theorem dies_bind {p : Prog (FsOp P) α} {f : α → Prog (FsOp P) β} :
    (p >>= f).Dies w part v ↔
      p.Dies w part v ∨ (f (p.run exec w).1).Dies (p.run exec w).2 part v := by
  induction p generalizing w with
  | pure a =>
    refine ⟨.inr, fun H => H.elim (fun H => ?_) id⟩
    obtain ⟨rfl, rfl⟩ := H
    exact Dies.self (f a) v
  | call o k ih =>
    have hrest := ih (exec o w).1 (w := (exec o w).2)
    show (_ ∨ _ ∨ (k (exec o w).1 >>= f).Dies _ part v) ↔ (_ ∨ _ ∨ _) ∨ _
    rw [hrest]
    simp only [or_assoc]
    rfl

section
variable {o : FsOp P α} {p : Prog (FsOp P) α} {f : α → Prog (FsOp P) β} {a : α}
  {t : FileSystem P}

theorem Torn.writes {o : FsOp P α} (h : o.Torn w part v) : ¬o.WritesNothing := by
  cases o with
  | writeAll => exact id
  | _ => cases h

/-- The write that was begun is not an operation that is none. -/
theorem dies_step (ho : exec o w = (a, t)) (hw : o.WritesNothing) (hpart : part ≠ [])
    (H : (perform o >>= f).Dies w part v) : (f a).Dies t part v := by
  rw [dies_bind, run_perform, ho] at H
  rcases H with (⟨hnil, _⟩ | htorn | ⟨hnil, _⟩) | H
  · exact absurd hnil hpart
  · exact absurd hw (Torn.writes htorn)
  · exact absurd hnil hpart
  · exact H

theorem dies_seq (hp : p.run exec w = (a, t)) (H : (p >>= f).Dies w part v) :
    p.Dies w part v ∨ (f a).Dies t part v := by
  rwa [dies_bind, hp] at H

end

/-! ## Programs that can fail -/

theorem dies_attempt {o : FsOp P (Except ε α)} {wrap : ε → β} (hpart : part ≠ []) :
    (attempt wrap o).run.Dies w part v ↔ o.Torn w part v := by
  show Prog.Dies (perform o >>= _) w part v ↔ _
  rw [dies_bind, run_perform]
  constructor
  · rintro ((⟨hnil, _⟩ | htorn | ⟨hnil, _⟩) | H)
    · exact absurd hnil hpart
    · exact htorn
    · exact absurd hnil hpart
    · cases hr : (exec o w).1 <;> rw [hr] at H <;> exact absurd H.1 hpart
  · exact fun htorn => .inl (.inr (.inl htorn))

theorem dies_bindE {p : ExceptT ε (Prog (FsOp P)) α} {f : α → ExceptT ε (Prog (FsOp P)) β} {a : α}
    {t : FileSystem P} (hp : p.run.run exec w = (.ok a, t))
    (H : (p >>= f).run.Dies w part v) :
    p.run.Dies w part v ∨ (f a).run.Dies t part v := by
  have H : (p.run >>= ExceptT.bindCont f).Dies w part v := H
  rw [dies_bind, hp] at H
  exact H

end Prog

end Driftbrake
