import Driftbrake.Lib.FileSystem

/-!
# Operations that fail, in the presence of others

`Performs o w r w' fault` is the execution of one operation on a disk and a system that may refuse
it: with a fault the operation reports it, and has at most changed the content of files and the
positions in them. What others can rely on is that the directory is as it was, and that a descriptor
that has been closed is not given out again (`Performs.keepsClosed`).
-/

namespace Driftbrake

variable {P : Type}

/-- The descriptor an operation works on, if it is not about the directory. -/
def FsOp.file? : {β : Type} → FsOp P β → Option Nat
  | _, .createNew _ | _, .openFile .. | _, .rename .. | _, .removeFile _ => none
  | _, .len fd | _, .seekStart fd _ | _, .seekEnd fd | _, .streamPosition fd | _, .readExact fd _
  | _, .writeAll fd _ | _, .flush fd | _, .setLen fd _ | _, .close fd => some fd

/-- The reply of an operation that is refused with an error. Closing is never refused, and creating
a new file is not said to have failed on one that exists unless there is one. -/
def FsOp.refusal : {β : Type} → FsOp P β → IoError → Option β
  | _, .createNew _, .alreadyExists => none
  | _, .createNew _, e => some (.error e)
  | _, .openFile .., e => some (.error e)
  | _, .len _, e => some (.error e)
  | _, .seekStart .., e => some (.error e)
  | _, .seekEnd _, e => some (.error e)
  | _, .streamPosition _, e => some (.error e)
  | _, .readExact .., e => some (.error e)
  | _, .writeAll .., e => some (.error e)
  | _, .flush _, e => some (.error e)
  | _, .setLen .., e => some (.error e)
  | _, .close _, _ => none
  | _, .rename .., e => some (.error e)
  | _, .removeFile _, e => some (.error e)

namespace FileSystem

/-- `w'` has the directory and the open descriptors of `w`. -/
structure SameNames (w w' : FileSystem P) : Prop where
  dir : w'.dir = w.dir
  handles : ∀ fd, w'.handles fd = none ↔ w.handles fd = none
  fds : w'.fds = w.fds

/-- The execution of an operation, refused with `fault` if there is one. -/
def Performs [DecidableEq P] {β : Type} (o : FsOp P β) (w : FileSystem P) (r : β)
    (w' : FileSystem P) : Option IoError → Prop
  | none => exec o w = (r, w')
  | some e => o.refusal e = some r ∧ SameNames w w'

/-- The descriptors of a process are closed. -/
def closeAll (w : FileSystem P) (fds : List Nat) : FileSystem P := fds.foldl closeFd w

/-! ## Descriptors are not given out again -/

/-- What is closed in `w` is closed in `w'`. -/
structure KeepsClosed (w w' : FileSystem P) : Prop where
  fds_le : w.fds ≤ w'.fds
  closed : ∀ {fd}, fd < w.fds → w.handles fd = none → w'.handles fd = none

variable {w w' w'' : FileSystem P} {fd : Nat}

theorem KeepsClosed.refl : KeepsClosed w w := ⟨Nat.le_refl _, fun _ h => h⟩

theorem KeepsClosed.trans (h : KeepsClosed w w') (h' : KeepsClosed w' w'') : KeepsClosed w w'' :=
  ⟨Nat.le_trans h.fds_le h'.fds_le, fun hlt hc =>
    h'.closed (Nat.lt_of_lt_of_le hlt h.fds_le) (h.closed hlt hc)⟩

theorem keepsClosed_of_eq (hhandles : w'.handles = w.handles) (hfds : w'.fds = w.fds) :
    KeepsClosed w w' :=
  ⟨Nat.le_of_eq hfds.symm, fun _ hc => (congrFun hhandles _).trans hc⟩

theorem SameNames.keepsClosed (h : SameNames w w') : KeepsClosed w w' :=
  ⟨Nat.le_of_eq h.fds.symm, fun _ hc => (h.handles _).mpr hc⟩

theorem keepsClosed_move {pos : Nat} (hhandles : w'.handles = w.handles) (hfds : w'.fds = w.fds) :
    KeepsClosed w (w'.move fd pos) := by
  refine ⟨Nat.le_of_eq hfds.symm, fun {d} _ hc => ?_⟩
  simp [move, hhandles, hc]

theorem keepsClosed_closeFd : KeepsClosed w (w.closeFd fd) := by
  refine ⟨Nat.le_refl _, fun {d} _ hc => ?_⟩
  simp [closeFd, hc]

theorem keepsClosed_openInode {i : Nat} (hi : i < w'.inodes) (hhandles : w'.handles = w.handles)
    (hfds : w'.fds = w.fds) : KeepsClosed w (w'.openInode i hi) := by
  refine ⟨?_, fun {d} hlt hc => ?_⟩
  · rw [← hfds]
    exact Nat.le_succ _
  · rw [← hfds] at hlt
    simp [openInode, Nat.ne_of_lt hlt, hhandles, hc]

theorem keepsClosed_closeAll (fds : List Nat) : KeepsClosed w (w.closeAll fds) := by
  induction fds generalizing w with
  | nil => exact .refl
  | cons fd fds ih => exact keepsClosed_closeFd.trans ih

theorem dir_closeAll (fds : List Nat) : (w.closeAll fds).dir = w.dir := by
  induction fds generalizing w with
  | nil => rfl
  | cons fd fds ih => exact ih

theorem keepsClosed_withHandle {α : Type} {f : OpenFile → Except IoError α × FileSystem P}
    (hf : ∀ o, KeepsClosed w (f o).2) : KeepsClosed w (w.withHandle fd f).2 := by
  rw [withHandle]
  split
  · exact hf _
  · exact .refl

theorem dir_withHandle {α : Type} {f : OpenFile → Except IoError α × FileSystem P}
    (hf : ∀ o, (f o).2.dir = w.dir) : (w.withHandle fd f).2.dir = w.dir := by
  rw [withHandle]
  split
  · exact hf _
  · rfl

variable [DecidableEq P] {β : Type}

theorem keepsClosed_exec (o : FsOp P β) (w : FileSystem P) : KeepsClosed w (exec o w).2 := by
  cases o with
  | createNew | rename | removeFile =>
    simp only [exec, execOp]
    split <;> exact keepsClosed_of_eq rfl rfl
  | openFile p create truncate =>
    simp only [exec, execOp]
    split
    · rename_i i hp
      split
      · have hi : i < (w.setContent i []).inodes := w.dir_lt hp
        exact keepsClosed_openInode hi rfl rfl
      · exact keepsClosed_openInode (w.dir_lt hp) rfl rfl
    · split
      · exact keepsClosed_openInode (Nat.lt_succ_self _) rfl rfl
      · exact .refl
  | len | streamPosition | flush | setLen =>
    exact keepsClosed_withHandle fun _ => keepsClosed_of_eq rfl rfl
  | seekStart | seekEnd | writeAll =>
    exact keepsClosed_withHandle fun _ => keepsClosed_move rfl rfl
  | readExact =>
    refine keepsClosed_withHandle fun _ => ?_
    dsimp only
    split <;> exact keepsClosed_move rfl rfl
  | close => exact keepsClosed_closeFd

/-- An operation on an open file leaves the directory alone. -/
theorem dir_exec_of_file {o : FsOp P β} (ho : o.file? = some fd) : (exec o w).2.dir = w.dir := by
  cases o with
  | createNew | rename | removeFile | openFile => cases ho
  | len | streamPosition | flush | setLen | seekStart | seekEnd | writeAll =>
    exact dir_withHandle fun _ => rfl
  | readExact =>
    refine dir_withHandle fun _ => ?_
    dsimp only
    split <;> rfl
  | close => rfl

section
variable {o : FsOp P β} {r : β} {fault : Option IoError}

theorem Performs.of_exec (h : exec o w = (r, w')) : Performs o w r w' none := h

theorem Performs.dir_of_file (H : Performs o w r w' fault) (ho : o.file? = some fd) :
    w'.dir = w.dir := by
  cases fault with
  | none =>
    have h := dir_exec_of_file (w := w) ho
    rwa [show exec o w = (r, w') from H] at h
  | some e => exact H.2.dir

theorem Performs.keepsClosed (H : Performs o w r w' fault) : KeepsClosed w w' := by
  cases fault with
  | none =>
    have h := keepsClosed_exec o w
    rwa [show exec o w = (r, w') from H] at h
  | some e => exact H.2.keepsClosed

end

end FileSystem

end Driftbrake
