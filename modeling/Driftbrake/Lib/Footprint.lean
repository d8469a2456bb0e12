import Driftbrake.Lib.Interference
import Driftbrake.Lib.Typestate

/-!
# What a program leaves alone

The names that a program uses bound what it can change. `o.Within N` says that every path the
operation `o` names is in `N`. A file that none of these paths is a link to and that nobody has open
(`Apart`) is not changed by such operations, and neither is an entry outside `N` (`Apart.run`). An
operation that `Spares` a path neither removes nor renames it: an entry that is there stays a link
to the same file.
-/

namespace Driftbrake

variable {P : Type}

theorem ne_of_within {N : P → Prop} {p q : P} (hp : N p) (hq : ¬N q) : q ≠ p :=
  fun heq => hq (heq ▸ hp)

namespace FsOp

/-- The paths that the operation names are all in `N`. -/
def Within (N : P → Prop) : {β : Type} → FsOp P β → Prop
  | _, .createNew p | _, .openFile p .. | _, .removeFile p => N p
  | _, .rename p q => N p ∧ N q
  | _, _ => True

/-- The operation neither removes nor renames the entry `p`. -/
def Spares (p : P) : {β : Type} → FsOp P β → Prop
  | _, .removeFile q => q ≠ p
  | _, .rename q r => q ≠ p ∧ r ≠ p
  | _, _ => True

variable {N M : P → Prop} {β : Type} {o : FsOp P β}

theorem Within.mono (h : o.Within N) (H : ∀ p, N p → M p) : o.Within M := by
  cases o with
  | createNew | openFile | removeFile => exact H _ h
  | rename => exact ⟨H _ h.1, H _ h.2⟩
  | _ => trivial

end FsOp

namespace FileSystem

/-- No path in `N` is a link to the file, and nobody has it open. -/
structure Apart (N : P → Prop) (i : Nat) (w : FileSystem P) : Prop where
  lt : i < w.inodes
  unlinked : ∀ {p}, N p → w.dir p ≠ some i
  closed : ∀ {fd f}, w.handles fd = some f → f.inode ≠ i

/-- From `w` to `w'` the file and the entries outside `N` have not changed. -/
structure Untouched (N : P → Prop) (i : Nat) (w w' : FileSystem P) : Prop where
  apart : Apart N i w'
  dir : ∀ {p}, ¬N p → w'.dir p = w.dir p
  content : w'.content i = w.content i

variable {N : P → Prop} {i j fd pos : Nat} {bs : List UInt8} {w w' w'' : FileSystem P} {p q : P}

theorem Untouched.refl (h : Apart N i w) : Untouched N i w w := ⟨h, fun _ => rfl, rfl⟩

theorem Untouched.trans (h : Untouched N i w w') (h' : Untouched N i w' w'') :
    Untouched N i w w'' :=
  ⟨h'.apart, fun hp => (h'.dir hp).trans (h.dir hp), h'.content.trans h.content⟩

theorem Untouched.dir_eq (h : Untouched N i w w') (hw : Apart N i w) (hp : w.dir p = some i) :
    w'.dir p = some i :=
  (h.dir fun hN => hw.unlinked hN hp).trans hp

/-- Whoever looks for the file by one of its names finds it as it was. -/
theorem Untouched.lookup (h : Untouched N i w w') (hw : Apart N i w) (hp : w.dir p = some i) :
    w'.lookup p = w.lookup p := by
  rw [FileSystem.lookup, FileSystem.lookup, h.dir_eq hw hp, hp, Option.map_some, Option.map_some,
    h.content]

/-! ## Updates -/

namespace Apart

variable (h : Apart N i w)
include h

theorem move : Untouched N i w (w.move fd pos) := by
  refine ⟨⟨h.lt, h.unlinked, fun {d f} hf => ?_⟩, fun _ => rfl, rfl⟩
  simp only [FileSystem.move] at hf
  split at hf
  · obtain ⟨g, hg, rfl⟩ := Option.map_eq_some_iff.mp hf
    have := h.closed hg
    exact this
  · exact h.closed hf

theorem setContent (hj : j ≠ i) : Untouched N i w (w.setContent j bs) :=
  ⟨⟨h.lt, h.unlinked, h.closed⟩, fun _ => rfl, Function.update_of_ne hj.symm _ _⟩

theorem closeFd : Untouched N i w (w.closeFd fd) := by
  refine ⟨⟨h.lt, h.unlinked, fun {d f} hf => ?_⟩, fun _ => rfl, rfl⟩
  simp only [FileSystem.closeFd] at hf
  split at hf
  · cases hf
  · exact h.closed hf

theorem openInode (hlt : j < w.inodes) (hj : j ≠ i) : Untouched N i w (w.openInode j hlt) := by
  refine ⟨⟨h.lt, h.unlinked, fun {d f} hf => ?_⟩, fun _ => rfl, rfl⟩
  simp only [FileSystem.openInode] at hf
  split at hf
  · cases hf
    exact hj
  · exact h.closed hf

variable [DecidableEq P]

theorem create (hp : N p) : Untouched N i w (w.create p) := by
  have hi : i ≠ w.inodes := Nat.ne_of_lt h.lt
  refine ⟨⟨Nat.lt_succ_of_lt h.lt, fun {q} hq => ?_, h.closed⟩, fun {q} hq => ?_,
    Function.update_of_ne hi _ _⟩
  · rw [dir_create]
    split
    · exact fun hs => hi (Option.some.inj hs).symm
    · exact h.unlinked hq
  · rw [dir_create, if_neg (ne_of_within hp hq)]

theorem renameEntry (hp : N p) (hq : N q) : Untouched N i w (w.renameEntry p q) := by
  refine ⟨⟨h.lt, fun {r} hr => ?_, h.closed⟩, fun {r} hr => ?_, rfl⟩
  · rw [dir_renameEntry]
    split
    · exact h.unlinked hp
    split
    · exact (Option.some_ne_none i).symm
    · exact h.unlinked hr
  · rw [dir_renameEntry, if_neg (ne_of_within hq hr), if_neg (ne_of_within hp hr)]

theorem unlink (hp : N p) : Untouched N i w (w.unlink p) := by
  refine ⟨⟨h.lt, fun {r} hr => ?_, h.closed⟩, fun {r} hr => ?_, rfl⟩
  · rw [dir_unlink]
    split
    · exact (Option.some_ne_none i).symm
    · exact h.unlinked hr
  · rw [dir_unlink, if_neg (ne_of_within hp hr)]

omit [DecidableEq P] in
theorem withHandle {α : Type} {f : OpenFile → Except IoError α × FileSystem P}
    (hf : ∀ o, o.inode ≠ i → Untouched N i w (f o).2) :
    Untouched N i w (w.withHandle fd f).2 := by
  rw [FileSystem.withHandle]
  split
  · rename_i o ho
    exact hf o (h.closed ho)
  · exact .refl h

end Apart

/-! ## Operations and programs -/

variable [DecidableEq P] {β α : Type} {o : FsOp P β}

/-- An operation on paths in `N` does not touch a file that is apart from them. -/
theorem Apart.exec (h : Apart N i w) (ho : o.Within N) : Untouched N i w (exec o w).2 := by
  cases o with
  | createNew p =>
    simp only [FileSystem.exec, execOp]
    split
    · exact .refl h
    · exact h.create ho
  | openFile p create truncate =>
    have hp : ∀ {j}, w.dir p = some j → j ≠ i := fun hj heq => h.unlinked ho (heq ▸ hj)
    simp only [FileSystem.exec, execOp]
    split
    · rename_i j hj
      split
      · have hcut : Untouched N i w (w.setContent j []) := h.setContent (hp hj)
        have hlt : j < (w.setContent j []).inodes := w.dir_lt hj
        exact hcut.trans (hcut.apart.openInode hlt (hp hj))
      · exact h.openInode (w.dir_lt hj) (hp hj)
    · split
      · have hnew := h.create ho
        exact hnew.trans (hnew.apart.openInode (Nat.lt_succ_self _) (Nat.ne_of_gt h.lt))
      · exact .refl h
  | rename p q =>
    simp only [FileSystem.exec, execOp]
    split
    · exact h.renameEntry ho.1 ho.2
    · exact .refl h
  | removeFile p =>
    simp only [FileSystem.exec, execOp]
    split
    · exact h.unlink ho
    · exact .refl h
  | len | streamPosition | flush => exact h.withHandle fun _ _ => .refl h
  | seekStart | seekEnd => exact h.withHandle fun _ _ => h.move
  | readExact =>
    refine h.withHandle fun f _ => ?_
    dsimp only
    split <;> exact h.move
  | writeAll fd bs =>
    refine h.withHandle fun f hf => ?_
    have hwrite : Untouched N i w (w.setContent f.inode (overwrite (w.content f.inode) f.pos bs)) :=
      h.setContent hf
    exact hwrite.trans hwrite.apart.move
  | setLen => exact h.withHandle fun f hf => h.setContent hf
  | close => exact h.closeFd

/-- The frame rule: a program that uses no path outside `N` does not touch a file that is apart from
these. -/
theorem Apart.run {Q : α → Prop} {prog : Prog (FsOp P) α} {a : α} (h : Apart N i w)
    (hprog : prog.Uses (FsOp.Within N) Q) (hrun : prog.run FileSystem.exec w = (a, w')) :
    Untouched N i w w' := by
  refine hprog.run_inv (I := Untouched N i w) (fun ho hw => ?_) hrun (.refl h)
  exact hw.trans (hw.apart.exec ho)

/-- An entry that is spared stays a link to its file. -/
theorem dir_exec_of_spares (h : w.dir p = some i) (ho : o.Spares p) :
    (exec o w).2.dir p = some i := by
  cases o with
  | createNew q =>
    simp only [exec, execOp]
    split
    · exact h
    · rename_i hq
      exact (if_neg (ne_of_dir_none h hq)).trans h
  | openFile q create truncate =>
    simp only [exec, execOp]
    split
    · split <;> exact h
    · rename_i hq
      split
      · exact (if_neg (ne_of_dir_none h hq)).trans h
      · exact h
  | rename q r =>
    simp only [exec, execOp]
    split
    · exact (if_neg ho.2.symm).trans ((if_neg ho.1.symm).trans h)
    · exact h
  | removeFile q =>
    simp only [exec, execOp]
    split
    · exact (if_neg (Ne.symm ho)).trans h
    · exact h
  | _ => exact (congrFun (dir_exec_of_file rfl) p).trans h

theorem dir_run_of_spares {Q : α → Prop} {prog : Prog (FsOp P) α} {a : α} (h : w.dir p = some i)
    (hprog : prog.Uses (FsOp.Spares p) Q) (hrun : prog.run exec w = (a, w')) :
    w'.dir p = some i :=
  hprog.run_inv (I := fun w : FileSystem P => w.dir p = some i)
    (fun ho hw => dir_exec_of_spares hw ho) hrun h

end FileSystem

end Driftbrake
