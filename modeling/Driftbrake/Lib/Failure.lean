import Driftbrake.Lib.HandleLogic

/-!
# Programs of which one operation fails

`execFault f` is the execution in which one operation fails, and none after it: in the state
`(w, some n)` it is the one behind the next `n`, in `(w, none)` it has failed already. `Fallible`
specifies a program on one open file whose `k` operations can each be that one, and which is done
when none of them is.
-/

namespace Driftbrake

namespace FileSystem

variable {P : Type} [DecidableEq P]

/-- The error of an operation that fails, and how many bytes a write then has written. -/
structure Failure where
  error : IoError
  kept : Nat

/-- An operation that fails has no other effect. Closing a file does not fail. -/
def Failure.step (f : Failure) : {β : Type} → FsOp P β → FileSystem P → β × FileSystem P
  | _, .createNew _, w => (.error f.error, w)
  | _, .openFile .., w => (.error f.error, w)
  | _, .len _, w => (.error f.error, w)
  | _, .seekStart .., w => (.error f.error, w)
  | _, .seekEnd _, w => (.error f.error, w)
  | _, .streamPosition _, w => (.error f.error, w)
  | _, .readExact .., w => (.error f.error, w)
  | _, .writeAll fd bs, w => (.error f.error, (exec (.writeAll fd (bs.take f.kept)) w).2)
  | _, .flush _, w => (.error f.error, w)
  | _, .setLen .., w => (.error f.error, w)
  | _, .close fd, w => exec (.close fd) w
  | _, .rename .., w => (.error f.error, w)
  | _, .removeFile _, w => (.error f.error, w)

def execFault (f : Failure) : Handler (FsOp P) (FileSystem P × Option Nat) where
  step
    | o, (w, some 0) =>
      let r := f.step o w
      (r.1, r.2, none)
    | o, (w, some (n + 1)) =>
      let r := exec o w
      (r.1, r.2, some n)
    | o, (w, none) =>
      let r := exec o w
      (r.1, r.2, none)

variable {α β ε : Type} {f : Failure} {w : FileSystem P} {fd i pos pos' pos'' k l n : Nat}
  {bs bs' bs'' : List UInt8}

theorem execFault_none (o : FsOp P α) (w : FileSystem P) :
    execFault f o (w, none) = ((exec o w).1, (exec o w).2, none) := rfl

theorem execFault_zero (o : FsOp P α) (w : FileSystem P) :
    execFault f o (w, some 0) = ((f.step o w).1, (f.step o w).2, none) := rfl

theorem execFault_succ {o : FsOp P α} {a : α} {w' : FileSystem P} (h : exec o w = (a, w')) :
    execFault f o (w, some (n + 1)) = (a, w', some n) := by
  show ((exec o w).1, (exec o w).2, some n) = _
  rw [h]

theorem run_execFault_none (p : Prog (FsOp P) α) (w : FileSystem P) :
    p.run (execFault f) (w, none) = ((p.run exec w).1, (p.run exec w).2, none) :=
  Prog.run_simulates (g := fun w => (w, none)) execFault_none p w

/-- A program of `k` operations, each of which can be the one that fails. Executed where `fd` is
open on `i` at `pos` with the bytes `bs`, it returns `a` and leaves the position `pos'` and the
bytes `bs'`, or returns the error `e`; it changes nothing but the file in either case. -/
structure Fallible (f : Failure) (fd i pos : Nat) (bs : List UInt8)
    (p : ExceptT ε (Prog (FsOp P)) α) (k : Nat) (e : ε) (a : α) (pos' : Nat) (bs' : List UInt8) :
    Prop where
  fails : ∀ w : FileSystem P, w.OpenAt fd i pos bs → ∀ n < k,
    ∃ w', p.run.run (execFault f) (w, some n) = (.error e, w', none) ∧ SameBut fd i w w'
  done : ∀ w : FileSystem P, w.OpenAt fd i pos bs → ∃ w',
    (∀ n, p.run.run (execFault f) (w, some (k + n)) = (.ok a, w', some n)) ∧
      w'.OpenAt fd i pos' bs' ∧ SameBut fd i w w'

namespace Fallible

theorem pure (a : α) (e : ε) :
    Fallible (P := P) f fd i pos bs (Pure.pure a) 0 e a pos bs where
  fails := fun _ _ n hn => absurd hn n.not_lt_zero
  done w h := ⟨w, fun n => by rw [Nat.zero_add]; rfl, h, .refl⟩

theorem bind {p : ExceptT ε (Prog (FsOp P)) α} {g : α → ExceptT ε (Prog (FsOp P)) β} {e : ε} {a : α}
    {b : β} (hp : Fallible f fd i pos bs p k e a pos' bs')
    (hg : Fallible f fd i pos' bs' (g a) l e b pos'' bs'') :
    Fallible f fd i pos bs (p >>= g) (k + l) e b pos'' bs'' where
  fails w h n hn := by
    by_cases hk : n < k
    · obtain ⟨w', hrun, hsame⟩ := hp.fails w h n hk
      exact ⟨w', by rw [Prog.run_bindE, hrun], hsame⟩
    · obtain ⟨m, rfl⟩ := Nat.exists_eq_add_of_le (Nat.not_lt.mp hk)
      obtain ⟨w₁, hrun, hat, hsame⟩ := hp.done w h
      obtain ⟨w', hrun', hsame'⟩ := hg.fails w₁ hat m (by omega)
      exact ⟨w', by rw [Prog.run_bindE, hrun]; exact hrun', hsame.trans hsame'⟩
  done w h := by
    obtain ⟨w₁, hrun, hat, hsame⟩ := hp.done w h
    obtain ⟨w', hrun', hat', hsame'⟩ := hg.done w₁ hat
    refine ⟨w', fun n => ?_, hat', hsame.trans hsame'⟩
    rw [Nat.add_assoc, Prog.run_bindE, hrun]
    exact hrun' n

theorem attempt {o : FsOp P (Except IoError α)} {wrap : IoError → ε} {a : α}
    (ho : Acts fd i pos bs o (.ok a) pos' bs')
    (hfail : ∀ w : FileSystem P, w.OpenAt fd i pos bs →
      ∃ w', f.step o w = (.error f.error, w') ∧ SameBut fd i w w') :
    Fallible f fd i pos bs (Prog.attempt wrap o) 1 (wrap f.error) a pos' bs' where
  fails w h n hn := by
    obtain rfl : n = 0 := by omega
    obtain ⟨w', hstep, hsame⟩ := hfail w h
    exact ⟨w', by rw [Prog.run_attempt, execFault_zero, hstep]; rfl, hsame⟩
  done w h := by
    obtain ⟨w', hexec, hat, hsame⟩ := ho w h
    refine ⟨w', fun n => ?_, hat, hsame⟩
    rw [Nat.add_comm, Prog.run_attempt, execFault_succ hexec]
    rfl

theorem writeAll (new : List UInt8) (wrap : IoError → ε) :
    Fallible (P := P) f fd i bs.length bs (Prog.attempt wrap (.writeAll fd new)) 1 (wrap f.error) ()
      (bs ++ new).length (bs ++ new) := by
  refine attempt (acts_writeAll new) fun w h => ?_
  obtain ⟨w', hexec, _, hsame⟩ := acts_writeAll (new.take f.kept) w h
  exact ⟨w', by rw [Failure.step, hexec], hsame⟩

theorem flush (wrap : IoError → ε) :
    Fallible (P := P) f fd i pos bs (Prog.attempt wrap (.flush fd)) 1 (wrap f.error) () pos bs :=
  attempt acts_flush fun w _ => ⟨w, rfl, .refl⟩

end Fallible

end FileSystem

end Driftbrake
