import Driftbrake.Journal.LockProtocol
import Driftbrake.Journal.Recovery
import Driftbrake.Lib.System

/-!
# Processes that share a file system

Any number of processes open journals at any paths, drop them and crash, each operation of a call a
step of its own, so that the calls interleave in every way; any operation may be refused by the
system. A client is one call of `open_or_create` together with the journal that it returns.

`Inv` is the invariant: every client keeps to the protocol of the lock, the lock file of a client
that has taken it is there, and no two have taken the same. `singleWriter` is what follows for the
journals that are open and for the removal of the lock file.
-/

namespace Driftbrake.Locks

open FileSystem

/-- What a client is doing: it is in `open_or_create` or in the drop, or has come to the end of one
of them, or its process has crashed. -/
inductive Task
  | running (rest : Prog (FsOp Path) CallResult)
  | ended (result : CallResult)
  | crashed

namespace Task

def of : Prog (FsOp Path) CallResult → Task
  | .pure result => ended result
  | .call o k => running (.call o k)

/-- The client has a `JournaledHistory`. -/
def Holds : Task → Prop
  | ended (.opened _) => True
  | _ => False

/-- The client has a `JournaledHistory`, or is inside `open_or_create` or the drop. -/
def Live : Task → Prop
  | running _ | ended (.opened _) => True
  | ended (.failed _) | ended .dropped | crashed => False

end Task

structure Client where
  pid : Nat
  path : Path
  has : Holdings
  task : Task

def Client.opening (pid : Nat) (path : Path) (maxRetainedEntries : Nat) (epochMs : UInt64) :
    Client :=
  ⟨pid, path, ⟨false, none⟩, .of (openCall path maxRetainedEntries epochMs)⟩

def Client.crash (c : Client) : Client := { c with task := .crashed }

structure State where
  fs : FileSystem Path
  clients : List Client

inductive Event
  | opens (pid : Nat) (path : Path) (maxRetainedEntries : Nat) (epochMs : UInt64)
  | advances (i : Nat) (fault : Option IoError)
  | drops (i : Nat)
  | crashes (pid : Nat)

inductive Step : State → Event → State → Prop
  | opens : Step s (.opens pid path n epochMs)
      { s with clients := s.clients ++ [.opening pid path n epochMs] }
  | advances {β : Type} {o : FsOp Path β} {k : β → Prog (FsOp Path) CallResult} {r : β} :
    s.clients[i]? = some ⟨pid, path, has, .running (.call o k)⟩ → Performs o s.fs r w' fault →
    Step s (.advances i fault) ⟨w', s.clients.set i ⟨pid, path, has.after o r, .of (k r)⟩⟩
  | drops : s.clients[i]? = some ⟨pid, path, has, .ended (.opened journal)⟩ →
    Step s (.drops i)
      { s with clients := s.clients.set i ⟨pid, path, has, .of (dropCall journal)⟩ }
  /-- No destructor runs, but the system closes the descriptors of the process. -/
  | crashes : Step s (.crashes pid)
      ⟨s.fs.closeAll ((s.clients.filter (·.pid = pid)).filterMap (·.has.file)),
        s.clients.map fun c => if c.pid = pid then c.crash else c⟩

/-- The system that starts with a file system as in `I` and nobody at work. -/
def system (I : FileSystem Path → Prop) : System State Event where
  Init s := s.clients = [] ∧ I s.fs
  Step := Step

variable {s s' : State} {e : Event} {c d : Client} {i j : Nat} {path : Path}
  {w w' : FileSystem Path} {fault : Option IoError} {stage : LockStage}
  {p : Prog (FsOp Path) CallResult}

/-! ## Clients keep to the protocol -/

def Task.At (path : Path) (stage : LockStage) : Task → Prop
  | running rest => rest.ObeysLock path stage
  | ended result => stage.Ends path result
  | crashed => stage = .outside

theorem Task.at_of : (Task.of p).At path stage ↔ p.ObeysLock path stage := by
  cases p <;> exact .rfl

/-- The client has come to a stage of the protocol, and has what it then has. -/
structure Client.Sound (w : FileSystem Path) (c : Client) : Prop where
  stage : ∃ stage : LockStage, c.task.At c.path stage ∧ stage.Has w c.has
  file_lt : ∀ fd, c.has.file = some fd → fd < w.fds

theorem Client.Sound.of_keepsClosed (h : c.Sound w) (hkeeps : KeepsClosed w w') : c.Sound w' := by
  obtain ⟨⟨stage, hat, hhas⟩, hfile⟩ := h
  refine ⟨⟨stage, hat, hhas.of_keepsClosed hfile hkeeps⟩, fun fd hfd => ?_⟩
  exact Nat.lt_of_lt_of_le (hfile fd hfd) hkeeps.fds_le

/-- A journal that is open has its lock. -/
theorem Client.Sound.owns_of_holds (h : c.Sound w) (hholds : c.task.Holds) :
    c.has.owns = true := by
  obtain ⟨⟨stage, hat, hhas⟩, -⟩ := h
  obtain ⟨pid, path, has, task⟩ := c
  cases task with
  | running | crashed => cases hholds
  | ended result =>
    cases result with
    | failed | dropped => cases hholds
    | opened journal =>
      obtain ⟨rfl, -⟩ := hat
      exact hhas.1

/-- One operation of a client: the stages before and after, what it does, and the client after. -/
theorem Client.Sound.advances {β : Type} {o : FsOp Path β} {k : β → Prog (FsOp Path) CallResult}
    {r : β} {pid : Nat} {has : Holdings}
    (h : Client.Sound w ⟨pid, path, has, .running (.call o k)⟩) (H : Performs o w r w' fault) :
    ∃ stage : LockStage, stage.allows path o ∧ stage.Has w has ∧
      LockMove path fault w w' stage has (stage.next o r) (has.after o r) ∧
      (Task.of (k r)).At path (stage.next o r) ∧
      Client.Sound w' ⟨pid, path, has.after o r, .of (k r)⟩ := by
  obtain ⟨⟨stage, ⟨hallows, hobeys⟩, hhas⟩, hfile⟩ := h
  have m := H.lockMove hallows has
  have hat : (Task.of (k r)).At path (stage.next o r) := Task.at_of.mpr (hobeys r)
  exact ⟨stage, hallows, hhas, m, hat, ⟨_, hat, m.has hhas hfile H.keepsClosed⟩,
    m.file_lt hfile H.keepsClosed⟩

/-! ## The invariant -/

structure Inv (s : State) : Prop where
  sound : ∀ {i : Nat} {c : Client}, s.clients[i]? = some c → c.Sound s.fs
  /-- A lock that has been taken is there. -/
  present : ∀ {i : Nat} {c : Client}, s.clients[i]? = some c → c.has.owns = true →
    (s.fs.dir c.path.lockPath).isSome
  /-- No two have taken the same lock. -/
  unique : ∀ {i j : Nat} {c d : Client}, s.clients[i]? = some c → s.clients[j]? = some d →
    c.has.owns = true → d.has.owns = true → c.path.lockPath = d.path.lockPath → i = j

theorem getElem?_set_cases {α : Type _} {l : List α} {i j : Nat} {y z : α}
    (h : (l.set i y)[j]? = some z) : (j = i ∧ z = y) ∨ (j ≠ i ∧ l[j]? = some z) := by
  by_cases hij : j = i
  · subst hij
    rw [List.getElem?_set_self'] at h
    obtain ⟨_, -, rfl⟩ := Option.map_eq_some_iff.mp h
    exact .inl ⟨rfl, rfl⟩
  · rw [List.getElem?_set_ne (Ne.symm hij)] at h
    exact .inr ⟨hij, h⟩

theorem getElem?_append_singleton_cases {α : Type _} {l : List α} {i : Nat} {y z : α}
    (h : (l ++ [y])[i]? = some z) : l[i]? = some z ∨ (i = l.length ∧ z = y) := by
  obtain hlt | rfl | hlt := Nat.lt_trichotomy i l.length
  · rw [List.getElem?_append_left hlt] at h
    exact .inl h
  · rw [List.getElem?_concat_length] at h
    exact .inr ⟨rfl, (Option.some.inj h).symm⟩
  · rw [List.getElem?_eq_none (by simpa using Nat.succ_le_of_lt hlt)] at h
    cases h

theorem Inv.init (h : s.clients = []) : Inv s := by
  refine ⟨fun {i c} hc => ?_, fun {i c} hc => ?_, fun {i j c d} hc => ?_⟩
  all_goals
    rw [h] at hc
    cases hc

/-- A step that leaves the directory alone and gives nobody a lock. -/
theorem Inv.of_dir (h : Inv s) (hdir : s'.fs.dir = s.fs.dir)
    (hsound : ∀ {i : Nat} {d : Client}, s'.clients[i]? = some d → d.Sound s'.fs)
    (howned : ∀ {i : Nat} {d : Client}, s'.clients[i]? = some d → d.has.owns = true →
      ∃ c, s.clients[i]? = some c ∧ c.path = d.path ∧ c.has.owns = true) : Inv s' := by
  refine ⟨hsound, fun {i c} hc howns => ?_, fun {i j c d} hc hd howns howns' heq => ?_⟩
  · obtain ⟨c', hc', hpath, howns⟩ := howned hc howns
    rw [hdir, ← hpath]
    exact h.present hc' howns
  · obtain ⟨c', hc', hpath, howns⟩ := howned hc howns
    obtain ⟨d', hd', hpath', howns'⟩ := howned hd howns'
    rw [← hpath, ← hpath'] at heq
    exact h.unique hc' hd' howns howns' heq

theorem Inv.opens (h : Inv s) (H : Step s (.opens pid path n epochMs) s') : Inv s' := by
  cases H
  have hsound : (Client.opening pid path n epochMs).Sound s.fs :=
    ⟨⟨.start, Task.at_of.mpr (openCall_obeys path n epochMs), rfl, rfl⟩, nofun⟩
  refine h.of_dir rfl (fun {i d} hd => ?_) fun {i d} hd howns => ?_
  · obtain hd | ⟨-, rfl⟩ := getElem?_append_singleton_cases hd
    · exact h.sound hd
    · exact hsound
  · obtain hd | ⟨-, rfl⟩ := getElem?_append_singleton_cases hd
    · exact ⟨d, hd, rfl, howns⟩
    · cases howns

theorem Inv.drops (h : Inv s) (H : Step s (.drops i) s') : Inv s' := by
  cases H with
  | @drops _ _ pid path has journal hi =>
    obtain ⟨⟨stage, ⟨rfl, hpath⟩, hhas⟩, hfile⟩ := h.sound hi
    refine h.of_dir rfl (fun {j d} hd => ?_) fun {j d} hd howns => ?_
    · obtain ⟨-, rfl⟩ | ⟨-, hd⟩ := getElem?_set_cases hd
      · exact ⟨⟨.opened journal.file, Task.at_of.mpr (dropCall_obeys hpath), hhas⟩, hfile⟩
      · exact h.sound hd
    · obtain ⟨rfl, rfl⟩ | ⟨-, hd⟩ := getElem?_set_cases hd
      · exact ⟨_, hi, rfl, howns⟩
      · exact ⟨d, hd, rfl, howns⟩

theorem Inv.crashes (h : Inv s) (H : Step s (.crashes pid) s') : Inv s' := by
  cases H with
  | crashes =>
    refine h.of_dir (dir_closeAll _) (fun {i d} hd => ?_) fun {i d} hd howns => ?_
    · obtain ⟨c, hc, rfl⟩ := Option.map_eq_some_iff.mp (List.getElem?_map.symm.trans hd)
      have hsound := (h.sound hc).of_keepsClosed (keepsClosed_closeAll
        ((s.clients.filter (·.pid = pid)).filterMap (·.has.file)))
      split
      · exact ⟨⟨.outside, rfl, trivial⟩, hsound.file_lt⟩
      · exact hsound
    · obtain ⟨c, hc, rfl⟩ := Option.map_eq_some_iff.mp (List.getElem?_map.symm.trans hd)
      refine ⟨c, hc, ?_⟩
      split at howns <;> split <;> exact ⟨rfl, howns⟩

theorem Inv.advances (h : Inv s) (H : Step s (.advances i fault) s') : Inv s' := by
  cases H with
  | @advances _ w' _ _ pid path has β o k r hi hperforms =>
    obtain ⟨stage, -, hhas, m, -, hsound⟩ := (h.sound hi).advances hperforms
    have hkeeps : KeepsClosed s.fs w' := hperforms.keepsClosed
    -- The lock of another client is another lock, if the client that works has one after the step.
    have hother : ∀ {j : Nat} {d : Client}, j ≠ i → s.clients[j]? = some d → d.has.owns = true →
        (has.after o r).owns = true → d.path.lockPath ≠ path.lockPath :=
      fun {j d} hji hd howns howns' heq => by
        obtain hhad | hnone := m.owns howns'
        · exact hji (h.unique hd hi howns hhad heq)
        · have := h.present hd howns
          rw [heq, hnone] at this
          cases this
    refine ⟨fun {j d} hd => ?_, fun {j d} hd howns => ?_,
      fun {j j' d d'} hd hd' howns howns' heq => ?_⟩
    · obtain ⟨-, rfl⟩ | ⟨-, hd⟩ := getElem?_set_cases hd
      · exact hsound
      · exact (h.sound hd).of_keepsClosed hkeeps
    · obtain ⟨-, rfl⟩ | ⟨hji, hd⟩ := getElem?_set_cases hd
      · exact m.present howns (h.present hi)
      · obtain hpresent | ⟨heq, rfl, -⟩ := m.isSome_dir (h.present hd howns)
        · exact hpresent
        · exact absurd (h.unique hd hi howns hhas.1 heq) hji
    · obtain ⟨hj, rfl⟩ | ⟨hji, hold⟩ := getElem?_set_cases hd
      · obtain ⟨hj', -⟩ | ⟨hji', hold'⟩ := getElem?_set_cases hd'
        · rw [hj, hj']
        · exact absurd heq.symm (hother hji' hold' howns' howns)
      · obtain ⟨-, rfl⟩ | ⟨-, hold'⟩ := getElem?_set_cases hd'
        · exact absurd heq (hother hji hold howns howns')
        · exact h.unique hold hold' howns howns' heq

theorem Inv.step (h : Inv s) (H : Step s e s') : Inv s' := by
  cases e with
  | opens => exact h.opens H
  | advances => exact h.advances H
  | drops => exact h.drops H
  | crashes => exact h.crashes H

variable {I : FileSystem Path → Prop} {steps : List (State × Event)}

theorem Inv.of_run (H : (system I).Run steps s) : Inv s :=
  H.always (I := Inv) (fun h : _ ∧ _ => .init h.1) Inv.step

/-! ## A single writer -/

/-- The entry `q` is the lock of client `i`, which alone has it and has closed its descriptor. -/
structure Releases (s : State) (q : Path) (i : Nat) (c : Client) : Prop where
  client : s.clients[i]? = some c
  lock : c.path.lockPath = q
  owns : c.has.owns = true
  closed : ∀ fd, c.has.file = some fd → s.fs.handles fd = none
  alone : ∀ {j : Nat} {d : Client}, s.clients[j]? = some d → d.has.owns = true →
    d.path.lockPath = q → j = i
  /-- No journal with that lock is open. -/
  free : ∀ {j : Nat} {d : Client}, s.clients[j]? = some d → d.task.Holds → d.path.lockPath ≠ q

/-- An entry that goes is the lock of the client that takes the step. -/
theorem Inv.releases (h : Inv s) (H : Step s e s') {q : Path} (hq : (s.fs.dir q).isSome)
    (hgone : s'.fs.dir q = none) : ∃ i fault c, e = .advances i fault ∧ Releases s q i c := by
  have hne : s'.fs.dir q ≠ s.fs.dir q := by
    rw [hgone]
    exact fun heq => absurd (heq ▸ hq) nofun
  cases H with
  | opens | drops => exact absurd rfl hne
  | crashes => exact absurd (congrFun (dir_closeAll _) q) hne
  | @advances i _ fault _ pid path has _ o k r hi hperforms =>
    obtain ⟨stage, -, hhas, m, -, -⟩ := (h.sound hi).advances hperforms
    obtain hthere | ⟨rfl, rfl, -⟩ := m.isSome_dir hq
    · rw [hgone] at hthere
      cases hthere
    have halone : ∀ {j : Nat} {d : Client}, s.clients[j]? = some d → d.has.owns = true →
        d.path.lockPath = path.lockPath → j = i :=
      fun hd howns heq => h.unique hd hi howns hhas.1 heq
    refine ⟨i, fault, _, rfl, hi, rfl, hhas.1, hhas.2, halone, fun {j d} hd hholds heq => ?_⟩
    obtain rfl := halone hd ((h.sound hd).owns_of_holds hholds) heq
    cases Option.some.inj (hi.symm.trans hd)
    exact hholds

/-- At most one journal with a lock is open, and an entry of the directory that is removed is the
lock of the client that removes it, when nobody else has it and its descriptor is closed. -/
theorem singleWriter (H : (system I).Run steps s) :
    (∀ {i j : Nat} {c d : Client}, s.clients[i]? = some c → s.clients[j]? = some d →
      c.task.Holds → d.task.Holds → c.path.lockPath = d.path.lockPath → i = j) ∧
    ∀ {e s' q}, Step s e s' → (s.fs.dir q).isSome → s'.fs.dir q = none →
      ∃ i fault c, e = .advances i fault ∧ Releases s q i c := by
  have hinv := Inv.of_run H
  refine ⟨fun {i j c d} hc hd hholds hholds' heq => ?_, fun hstep hq => hinv.releases hstep hq⟩
  have howns := (hinv.sound hc).owns_of_holds hholds
  have howns' := (hinv.sound hd).owns_of_holds hholds'
  exact hinv.unique hc hd howns howns' heq

/-- A call that nobody interleaves with and nothing refuses goes as the program does. -/
theorem run_alone {pid : Nat} {has : Holdings} (H : (system I).Run steps s)
    (hi : s.clients[i]? = some ⟨pid, path, has, .of p⟩) :
    ∃ steps' has', (system I).Run steps'
      ⟨(p.run exec s.fs).2, s.clients.set i ⟨pid, path, has', .ended (p.run exec s.fs).1⟩⟩ := by
  induction p generalizing s steps has with
  | pure result =>
    obtain ⟨hlt, heq⟩ := List.getElem?_eq_some_iff.mp hi
    have hself : s.clients.set i ⟨pid, path, has, .ended result⟩ = s.clients := by
      rw [show (⟨pid, path, has, .ended result⟩ : Client) = s.clients[i] from heq.symm,
        List.set_getElem_self]
    refine ⟨steps, has, ?_⟩
    show (system I).Run steps ⟨s.fs, s.clients.set i ⟨pid, path, has, .ended result⟩⟩
    rwa [hself]
  | call o k ih =>
    obtain ⟨hlt, -⟩ := List.getElem?_eq_some_iff.mp hi
    obtain ⟨steps', has', H'⟩ :=
      ih (exec o s.fs).1 (.step H (.advances hi (.of_exec rfl))) (List.getElem?_set_self hlt)
    rw [List.set_set] at H'
    exact ⟨steps', has', H'⟩

/-- A process opens a new journal. -/
theorem run_opens (pid : Nat) (path : Path) (hinit : I w) (hlock : Unlocked w path)
    (hcontent : contentAt w path = []) :
    ∃ steps has journal j bs w', (system I).Run steps
      ⟨w', [⟨pid, path, has, .ended (.opened journal)⟩]⟩ ∧ journal.path = path ∧
      Driftbrake.Live w' journal j bs := by
  obtain ⟨j, w', hrun, hlive, -⟩ := openOrCreate_new 100 0 hlock hcontent
  have hcall : (openCall path 100 0).run exec w = (.opened ⟨.new, w.fds, path, 100⟩, w') := by
    rw [openCall, Prog.run_map, hrun]
  have hstart : (system I).Run [] ⟨w, []⟩ := .init ⟨rfl, hinit⟩
  have hopens : Step ⟨w, []⟩ (.opens pid path 100 0) ⟨w, [.opening pid path 100 0]⟩ := .opens
  obtain ⟨steps, has, H⟩ := run_alone (.step hstart hopens) (i := 0) rfl
  rw [hcall] at H
  exact ⟨steps, has, _, j, _, w', H, rfl, hlive⟩

/-- A journal is opened, which nobody else then has open, and dropped. -/
theorem singleWriter_drop :
    (∃ steps s c, (system fun _ => True).Run steps s ∧ s.clients[0]? = some c ∧ c.task.Holds ∧
      ∀ {j : Nat} {d : Client}, s.clients[j]? = some d → d.task.Holds →
        c.path.lockPath = d.path.lockPath → 0 = j) ∧
    ∃ steps s e s', (system fun _ => True).Run steps s ∧ Step s e s' ∧
      (s.fs.dir driftJournal.lockPath).isSome ∧ s'.fs.dir driftJournal.lockPath = none ∧
      ∃ i fault c, e = .advances i fault ∧ Releases s driftJournal.lockPath i c := by
  obtain ⟨steps, has, journal, j, bs, w, H, hpath, hlive⟩ :=
    run_opens (I := fun _ => True) (w := .empty) 0 driftJournal trivial rfl rfl
  let closed : State := ⟨w.closeFd journal.file, [⟨0, driftJournal, has,
    .running (.call (.removeFile journal.path.lockPath) fun _ => .pure .dropped)⟩]⟩
  have hdrops : Step ⟨w, [⟨0, driftJournal, has, .ended (.opened journal)⟩]⟩ (.drops 0)
    ⟨w, [⟨0, driftJournal, has, .of (dropCall journal)⟩]⟩ := .drops rfl
  have hcloses := Step.advances (s := ⟨w, [⟨0, driftJournal, has, .of (dropCall journal)⟩]⟩)
    (i := 0) rfl (.of_exec (exec_close w journal.file))
  obtain ⟨l, hl⟩ := Option.isSome_iff_exists.mp hlive.locked
  have hlocked : closed.fs.dir journal.path.lockPath = some l := hl
  have hremoves := Step.advances (s := closed) (i := 0) rfl (.of_exec (exec_removeFile hlocked))
  have hgone := unlocked_drop w journal.path journal.file
  rw [← hpath]
  have hthere : (closed.fs.dir journal.path.lockPath).isSome := hlocked ▸ rfl
  have H' : (system fun _ => True).Run _ closed := (H.step hdrops).step hcloses
  exact ⟨⟨steps, _, _, H, rfl, trivial, fun hd => (singleWriter H).1 rfl hd trivial⟩,
    _, _, _, _, H', hremoves, hthere, hgone, (singleWriter H').2 hremoves hthere hgone⟩

end Driftbrake.Locks
