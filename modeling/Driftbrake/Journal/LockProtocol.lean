import Driftbrake.Journal.Replay
import Driftbrake.Lib.Interference

/-!
# The protocol of the lock file

`open_or_create` and the drop of a journal keep to a typestate: the lock file is created first and
opening the journal file is what it permits, everything on the journal file goes through that
descriptor, and the lock file is removed last, by nobody but the one who created it and only when
the descriptor is closed (`openCall_obeys`, `dropCall_obeys`). This is so whatever the replies of
the operations are, so it holds of a call that others interleave with or that fails.

`LockMove` says what one operation that the typestate allows does to the directory, to the lock and
to the descriptor.
-/

namespace Driftbrake

open FileSystem

/-- What a call of `open_or_create` or a drop ends with. -/
inductive CallResult
  | opened (journal : JournaledHistory)
  | failed (e : JournalError)
  | dropped

def openCall (path : Path) (maxRetainedEntries : Nat) (epochMs : UInt64) :
    Prog (FsOp Path) CallResult :=
  (fun r => match r with
    | .ok journal => .opened journal
    | .error e => .failed e) <$> openOrCreate path maxRetainedEntries epochMs

def dropCall (journal : JournaledHistory) : Prog (FsOp Path) CallResult :=
  (fun _ => .dropped) <$> journal.drop

/-- How far a call has come: it is in front of the lock, has found it taken, has the lock and no
open file, has the lock and the journal file open, or is through with both. -/
inductive LockStage
  | start
  | refused
  | locked
  | opened (fd : Nat)
  | outside

namespace LockStage

def allows (path : Path) : {β : Type} → LockStage → FsOp Path β → Prop
  | _, start, .createNew p => p = path.lockPath
  | _, locked, .openFile p create truncate => p = path ∧ create = true ∧ truncate = false
  | _, locked, .removeFile p => p = path.lockPath
  | _, opened fd, o => o.file? = some fd
  | _, _, _ => False

def next : {β : Type} → LockStage → FsOp Path β → β → LockStage
  | _, start, .createNew _, .ok _ => locked
  | _, start, .createNew _, .error .alreadyExists => refused
  | _, start, .createNew _, .error _ => outside
  | _, locked, .openFile .., .ok fd => opened fd
  | _, locked, .removeFile _, _ => outside
  | _, opened _, .close _, _ => locked
  | _, stage, _, _ => stage

/-- The lock file is there, and it is the call's. -/
def Owns : LockStage → Prop
  | locked | opened _ => True
  | start | refused | outside => False

/-- The stage in which a call may end with a result. -/
def Ends (path : Path) (stage : LockStage) : CallResult → Prop
  | .opened journal => stage = opened journal.file ∧ journal.path = path
  | .failed (.alreadyLocked _) => stage = refused
  | .failed _ | .dropped => stage = outside

/-- A call that has failed does not have the lock. -/
theorem Ends.not_owns {path : Path} {stage : LockStage} {e : JournalError}
    (h : stage.Ends path (.failed e)) : ¬stage.Owns := by
  cases e with
  | alreadyLocked =>
    obtain rfl : stage = refused := h
    exact id
  | io | invalidMagic | unsupportedVersion | checksumMismatch =>
    obtain rfl : stage = outside := h
    exact id

end LockStage

def lockProtocol (path : Path) : Typestate (FsOp Path) LockStage :=
  ⟨LockStage.allows path, LockStage.next⟩

/-- A call on the journal at `path` that has come to `stage` keeps to the protocol. -/
abbrev Prog.ObeysLock (path : Path) (stage : LockStage) (p : Prog (FsOp Path) CallResult) : Prop :=
  p.Obeys (lockProtocol path) (LockStage.Ends path) stage

variable {path : Path} {fd file fuel : Nat}

/-! ## The calls -/

/-- An operation on an open descriptor that does not close it. -/
def FsOp.On (fd : Nat) : {β : Type} → FsOp Path β → Prop
  | _, .close _ => False
  | _, o => o.file? = some fd

/-- An error that is not about the lock. -/
def NotAboutLock (e : JournalError) : Prop := ∀ p, e ≠ .alreadyLocked p

/-- The method works on an open file only. -/
abbrev WorksOn (file : Nat) {α : Type} (p : Io α) : Prop :=
  p.run.Uses (FsOp.On file) (Prog.OnError NotAboutLock)

theorem io_worksOn {α : Type} {o : FsOp Path (Except IoError α)}
    (ho : FsOp.On file o := by exact rfl) : WorksOn file (io o) :=
  Prog.uses_attempt ho fun _ => nofun

theorem replay_worksOn (validOffset : Nat) (inner : ReconcileHistory) :
    WorksOn file (replay file fuel validOffset inner) :=
  replay_uses (fun _ => rfl) rfl (fun _ => rfl) (fun _ => rfl) (fun _ => nofun) validOffset inner

theorem load_worksOn (fileLen : Nat) (epochMs : UInt64) :
    WorksOn file (load file fileLen epochMs) := by
  rw [load]
  split
  · exact .bindE io_worksOn fun _ => .bindE io_worksOn fun _ => Prog.uses_pureE _
  · refine .bindE io_worksOn fun _ => .bindE io_worksOn fun head => ?_
    dsimp only
    split
    · refine Prog.uses_throwE ?_
      intro p h
      cases h
    split
    · refine Prog.uses_throwE ?_
      intro p h
      cases h
    · exact replay_worksOn _ _

theorem recover_worksOn (epochMs : UInt64) : WorksOn file (recover file epochMs) :=
  .bindE io_worksOn fun _ => (load_worksOn _ _).bindE fun _ =>
    .bindE io_worksOn fun _ => Prog.uses_pureE _

theorem Prog.Uses.obeysLock {α : Type} {Q : α → Prop} {p : Prog (FsOp Path) α}
    (h : p.Uses (FsOp.On fd) Q) :
    p.Obeys (lockProtocol path) (fun stage a => stage = .opened fd ∧ Q a) (.opened fd) := by
  refine h.obeys fun {β o} ho => ?_
  cases o with
  | createNew | openFile | rename | removeFile | close => cases ho
  | len | seekStart | seekEnd | streamPosition | readExact | writeAll | flush | setLen =>
    exact ⟨ho, fun _ => rfl⟩

theorem openCall_obeys (path : Path) (max : Nat) (epochMs : UInt64) :
    (openCall path max epochMs).ObeysLock path .start := by
  have hrun : (openOrCreate path max epochMs).Obeys (lockProtocol path)
      (fun stage r => match r with
        | .ok journal => LockStage.Ends path stage (.opened journal)
        | .error e => LockStage.Ends path stage (.failed e)) .start := by
    refine .perform rfl fun locked => ?_
    rcases locked with e | _
    · cases e <;> exact rfl
    refine .perform ⟨rfl, rfl, rfl⟩ fun opened => ?_
    rcases opened with e | file
    · exact .perform rfl fun _ => rfl
    refine (recover_worksOn epochMs).obeysLock.bind fun stage recovered h => ?_
    obtain ⟨rfl, hrecovered⟩ := h
    cases recovered with
    | ok inner => exact ⟨rfl, rfl⟩
    | error e =>
      refine .perform rfl fun _ => .perform rfl fun _ => ?_
      cases e with
      | alreadyLocked p => exact absurd rfl (hrecovered p)
      | io | invalidMagic | unsupportedVersion | checksumMismatch => rfl
  refine hrun.map fun stage r hr => ?_
  cases r <;> exact hr

theorem dropCall_obeys {journal : JournaledHistory} (h : journal.path = path) :
    (dropCall journal).ObeysLock path (.opened journal.file) := by
  subst h
  have hrun : journal.drop.Obeys (lockProtocol journal.path) (fun stage _ => stage = .outside)
      (.opened journal.file) := .perform rfl fun _ => .perform rfl fun _ => rfl
  exact hrun.map fun stage _ hr => hr

/-! ## What an operation does -/

/-- What a call has: the lock file, if it has created it and not removed it, and the descriptor that
it has been given for the journal file. -/
structure Holdings where
  owns : Bool
  file : Option Nat

def Holdings.after (h : Holdings) : {β : Type} → FsOp Path β → β → Holdings
  | _, .createNew _, .ok _ => { h with owns := true }
  | _, .removeFile _, .ok _ => { h with owns := false }
  | _, .openFile .., .ok fd => { h with file := some fd }
  | _, _, _ => h

/-- What an operation of a call that keeps to the protocol does. -/
inductive LockMove (path : Path) (fault : Option IoError) (w w' : FileSystem Path) :
    LockStage → Holdings → LockStage → Holdings → Prop
  | taken : w.dir path.lockPath = none → (w'.dir path.lockPath).isSome →
    (∀ {q}, q ≠ path.lockPath → w'.dir q = w.dir q) →
    LockMove path fault w w' .start h .locked { h with owns := true }
  | refused : (w.dir path.lockPath).isSome → w'.dir = w.dir →
    LockMove path fault w w' .start h .refused h
  | notTaken : w'.dir = w.dir → LockMove path fault w w' .start h .outside h
  | opened : (w'.dir path).isSome → (∀ {q}, q ≠ path → w'.dir q = w.dir q) → d < w'.fds →
    LockMove path fault w w' .locked h (.opened d) { h with file := some d }
  | notOpened : w'.dir = w.dir → LockMove path fault w w' .locked h .locked h
  | released : w'.dir path.lockPath = none → (∀ {q}, q ≠ path.lockPath → w'.dir q = w.dir q) →
    LockMove path fault w w' .locked h .outside { h with owns := false }
  | notReleased : fault.isSome ∨ w.dir path.lockPath = none → w'.dir = w.dir →
    LockMove path fault w w' .locked h .outside h
  | works : w'.dir = w.dir → LockMove path fault w w' (.opened d) h (.opened d) h
  | closed : w'.dir = w.dir → w'.handles d = none →
    LockMove path fault w w' (.opened d) h .locked h

variable {w w' : FileSystem Path} {fault : Option IoError} {stage : LockStage}

namespace FileSystem.Performs

theorem createNew_lockMove {r : Except IoError Unit}
    (H : Performs (.createNew path.lockPath) w r w' fault) (h : Holdings) :
    LockMove path fault w w' .start h (LockStage.start.next (.createNew path.lockPath) r)
      (h.after (.createNew path.lockPath) r) := by
  cases fault with
  | none =>
    cases hdir : w.dir path.lockPath with
    | none =>
      cases (exec_createNew hdir).symm.trans H
      refine .taken hdir ?_ fun hq => if_neg hq
      rw [dir_create, if_pos rfl]
      rfl
    | some i =>
      cases (exec_createNew_some hdir).symm.trans H
      exact .refused (Option.isSome_iff_exists.mpr ⟨i, hdir⟩) rfl
  | some e =>
    obtain ⟨hreply, hsame⟩ := H
    cases e <;> cases hreply <;> exact .notTaken hsame.dir

theorem openFile_lockMove {r : Except IoError Nat}
    (H : Performs (.openFile path true false) w r w' fault) (h : Holdings) :
    LockMove path fault w w' .locked h (LockStage.locked.next (.openFile path true false) r)
      (h.after (.openFile path true false) r) := by
  cases fault with
  | none =>
    obtain ⟨i, v, hopen, hopened⟩ := exec_openFile w path true false (.inl rfl)
    cases hopen.symm.trans H
    refine .opened ?_ hopened.dir (w'.handles_lt hopened.openAt.handle)
    rw [hopened.entry]
    rfl
  | some e =>
    obtain ⟨hreply, hsame⟩ := H
    cases hreply
    exact .notOpened hsame.dir

theorem removeFile_lockMove {r : Except IoError Unit}
    (H : Performs (.removeFile path.lockPath) w r w' fault) (h : Holdings) :
    LockMove path fault w w' .locked h .outside (h.after (.removeFile path.lockPath) r) := by
  cases fault with
  | none =>
    cases hdir : w.dir path.lockPath with
    | none =>
      cases (exec_removeFile_none hdir).symm.trans H
      exact .notReleased (.inr hdir) rfl
    | some i =>
      cases (exec_removeFile hdir).symm.trans H
      exact .released (by rw [dir_unlink, if_pos rfl]) fun hq => if_neg hq
  | some e =>
    obtain ⟨hreply, hsame⟩ := H
    cases hreply
    exact .notReleased (.inl rfl) hsame.dir

theorem opened_lockMove {β : Type} {o : FsOp Path β} {r : β} (H : Performs o w r w' fault)
    (ho : o.file? = some fd) (h : Holdings) :
    LockMove path fault w w' (.opened fd) h ((LockStage.opened fd).next o r) (h.after o r) := by
  have hdir := H.dir_of_file ho
  cases o with
  | createNew | openFile | rename | removeFile => cases ho
  | close d =>
    obtain rfl : d = fd := Option.some.inj ho
    cases fault with
    | none =>
      cases (exec_close w d).symm.trans H
      exact .closed hdir (handles_closeFd w d)
    | some e => cases H.1
  | len | seekStart | seekEnd | streamPosition | readExact | writeAll | flush | setLen =>
    exact .works hdir

theorem lockMove {β : Type} {o : FsOp Path β} {r : β} (H : Performs o w r w' fault)
    (ho : stage.allows path o) (h : Holdings) :
    LockMove path fault w w' stage h (stage.next o r) (h.after o r) := by
  cases stage with
  | refused | outside => cases o <;> cases ho
  | start =>
    cases o with
    | createNew p =>
      obtain rfl : p = path.lockPath := ho
      exact H.createNew_lockMove h
    | _ => cases ho
  | locked =>
    cases o with
    | openFile p create truncate =>
      obtain ⟨rfl, rfl, rfl⟩ : p = path ∧ create = true ∧ truncate = false := ho
      exact H.openFile_lockMove h
    | removeFile p =>
      obtain rfl : p = path.lockPath := ho
      exact H.removeFile_lockMove h
    | _ => cases ho
  | opened fd => exact H.opened_lockMove ho h

end FileSystem.Performs

/-! ## What follows from a move -/

/-- What a call has in each of its stages. -/
def LockStage.Has (w : FileSystem Path) (h : Holdings) : LockStage → Prop
  | start => h.owns = false ∧ h.file = none
  | refused => h.owns = false
  | locked => h.owns = true ∧ ∀ fd, h.file = some fd → w.handles fd = none
  | opened fd => h.owns = true ∧ h.file = some fd
  | outside => True

theorem LockStage.Owns.owns {h : Holdings} (hstage : stage.Owns) (hhas : stage.Has w h) :
    h.owns = true := by
  cases stage with
  | start | refused | outside => cases hstage
  | locked | opened => exact hhas.1

/-- A call that has the lock and goes on has not given it up. -/
theorem LockStage.owns_of_allows {h : Holdings} {β : Type} {o : FsOp Path β}
    (hallows : stage.allows path o) (hhas : stage.Has w h) (howns : h.owns = true) :
    stage.Owns := by
  cases stage with
  | start => exact absurd (hhas.1.symm.trans howns) nofun
  | locked | opened => trivial
  | refused | outside => cases o <;> cases hallows

/-- Others do not open what the call has closed. -/
theorem LockStage.Has.of_keepsClosed {h : Holdings} (hhas : stage.Has w h)
    (hfile : ∀ fd, h.file = some fd → fd < w.fds) (hkeeps : KeepsClosed w w') :
    stage.Has w' h := by
  cases stage with
  | start | refused | opened | outside => exact hhas
  | locked => exact ⟨hhas.1, fun fd hfd => hkeeps.closed (hfile fd hfd) (hhas.2 fd hfd)⟩

namespace LockMove

variable {stage' : LockStage} {h h' : Holdings}

theorem has (m : LockMove path fault w w' stage h stage' h') (hhas : stage.Has w h)
    (hfile : ∀ fd, h.file = some fd → fd < w.fds) (hkeeps : KeepsClosed w w') :
    stage'.Has w' h' := by
  have hhas' := hhas.of_keepsClosed hfile hkeeps
  cases m with
  | taken => exact ⟨rfl, fun fd hfd => absurd (hfd.symm.trans hhas.2) nofun⟩
  | refused => exact hhas.1
  | opened => exact ⟨hhas.1, rfl⟩
  | notTaken | released | notReleased => trivial
  | notOpened | works => exact hhas'
  | closed _ hclosed =>
    refine ⟨hhas.1, fun fd hfd => ?_⟩
    cases hhas.2.symm.trans hfd
    exact hclosed

theorem file_lt (m : LockMove path fault w w' stage h stage' h')
    (hfile : ∀ fd, h.file = some fd → fd < w.fds) (hkeeps : KeepsClosed w w') :
    ∀ fd, h'.file = some fd → fd < w'.fds := by
  have hfile' : ∀ fd, h.file = some fd → fd < w'.fds := fun fd hfd =>
    Nat.lt_of_lt_of_le (hfile fd hfd) hkeeps.fds_le
  cases m with
  | opened _ _ hlt =>
    rintro _ ⟨⟩
    exact hlt
  | taken | refused | notTaken | notOpened | released | notReleased | works | closed => exact hfile'

/-- An entry that goes is the lock file, which the call has removed. -/
theorem isSome_dir (m : LockMove path fault w w' stage h stage' h') {q : Path}
    (hq : (w.dir q).isSome) :
    (w'.dir q).isSome ∨ q = path.lockPath ∧ stage = .locked ∧ h'.owns = false := by
  cases m with
  | taken _ hnew hdir =>
    by_cases hlock : q = path.lockPath
    · exact .inl (hlock ▸ hnew)
    · exact .inl (hdir hlock ▸ hq)
  | opened hnew hdir =>
    by_cases hpath : q = path
    · exact .inl (hpath ▸ hnew)
    · exact .inl (hdir hpath ▸ hq)
  | released _ hdir =>
    by_cases hlock : q = path.lockPath
    · exact .inr ⟨hlock, rfl, rfl⟩
    · exact .inl (hdir hlock ▸ hq)
  | refused _ hdir | notTaken hdir | notOpened hdir | notReleased _ hdir | works hdir
  | closed hdir => exact .inl (hdir ▸ hq)

/-- A call is refused for a lock file that is there. -/
theorem of_refused (m : LockMove path fault w w' stage h .refused h') :
    stage = .start ∧ (w.dir path.lockPath).isSome := by
  cases m with
  | refused hthere => exact ⟨rfl, hthere⟩

/-- A lock that the call has after the step is there. -/
theorem present (m : LockMove path fault w w' stage h stage' h') (howns' : h'.owns = true)
    (hpresent : h.owns = true → (w.dir path.lockPath).isSome) : (w'.dir path.lockPath).isSome := by
  have hold : h.owns = true → (w'.dir path.lockPath).isSome := fun howns => by
    obtain hdir | ⟨-, -, hnot⟩ := m.isSome_dir (hpresent howns)
    · exact hdir
    · rw [howns'] at hnot
      cases hnot
  cases m with
  | taken _ hnew => exact hnew
  | released => cases howns'
  | opened | refused | notTaken | notOpened | notReleased | works | closed => exact hold howns'

/-- An entry that comes is one of a call that has the lock. -/
theorem of_isSome_dir (m : LockMove path fault w w' stage h stage' h') {q : Path}
    (hq : (w'.dir q).isSome) :
    (w.dir q).isSome ∨ (q = path.lockPath ∨ q = path) ∧ stage'.Owns := by
  cases m with
  | taken _ _ hdir =>
    by_cases hlock : q = path.lockPath
    · exact .inr ⟨.inl hlock, trivial⟩
    · exact .inl (hdir hlock ▸ hq)
  | opened _ hdir =>
    by_cases hpath : q = path
    · exact .inr ⟨.inr hpath, trivial⟩
    · exact .inl (hdir hpath ▸ hq)
  | released hgone hdir =>
    by_cases hlock : q = path.lockPath
    · rw [hlock, hgone] at hq
      cases hq
    · exact .inl (hdir hlock ▸ hq)
  | refused _ hdir | notTaken hdir | notOpened hdir | notReleased _ hdir | works hdir
  | closed hdir => exact .inl (hdir ▸ hq)

/-- A call keeps its lock as long as it is there, unless it fails to remove it. -/
theorem keeps (m : LockMove path fault w w' stage h stage' h') (hstage : stage.Owns)
    (hthere : (w'.dir path.lockPath).isSome) (hfault : stage' = .outside → fault = none) :
    stage'.Owns := by
  cases m with
  | taken | refused | notTaken => cases hstage
  | opened | notOpened | works | closed => trivial
  | released hgone =>
    rw [hgone] at hthere
    cases hthere
  | notReleased hwhy hdir =>
    rcases hwhy with hwhy | hnone
    · rw [hfault rfl] at hwhy
      cases hwhy
    · rw [hdir, hnone] at hthere
      cases hthere

/-- A call that has the lock has taken it where there was none. -/
theorem owns (m : LockMove path fault w w' stage h stage' h') (howns : h'.owns = true) :
    h.owns = true ∨ w.dir path.lockPath = none := by
  cases m with
  | taken hnone => exact .inr hnone
  | released => cases howns
  | opened | refused | notTaken | notOpened | notReleased | works | closed => exact .inl howns

end LockMove

end Driftbrake
