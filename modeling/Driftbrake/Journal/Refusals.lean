import Driftbrake.Journal.Locks

/-!
# Opens that are refused

An open is refused with `AlreadyLocked` when there is a file with the name of its lock, whoever has
left it there. `Justified` is what the refusal says: another client with the same path is alive. It
holds in the runs in which nothing leaves the lock file without an owner or has another path take it
(`refusals_justified`); it does not in the run in which the holder crashes and another process opens
the journal.
-/

namespace Driftbrake.Locks

open FileSystem

variable {s s' : State} {e : Event} {c d : Client} {i j : Nat} {path : Path} {task : Task}

/-- The step from `s` to `s'` ends the call of client `i` with `AlreadyLocked`. -/
def Refuses (s s' : State) (i : Nat) (path : Path) : Prop :=
  (∃ pid has rest, s.clients[i]? = some ⟨pid, path, has, .running rest⟩) ∧
    ∃ c lock, s'.clients[i]? = some c ∧ c.task = .ended (.failed (.alreadyLocked lock))

/-- Another client has the journal at `path`, or is inside `open_or_create` or the drop of it. -/
def InUse (s : State) (i : Nat) (path : Path) : Prop :=
  ∃ (j : Nat) (d : Client), j ≠ i ∧ s.clients[j]? = some d ∧ d.path = path ∧ d.task.Live

/-- Whom the step refuses the journal at `path` is told so for a reason. -/
def Justified (path : Path) (s : State) (e : Event) : Prop :=
  ∀ s' i, Step s e s' → Refuses s s' i path → InUse s i path

/-- The next operation is to remove a file. -/
def Task.Unlinks : Task → Prop
  | running (.call (.removeFile _) _) => True
  | _ => False

/-- The next operation is to create a file that must not exist. -/
def Task.Creates : Task → Prop
  | running (.call (.createNew _) _) => True
  | _ => False

/-- The step leaves the lock of the journal at `path` to those who open it: the removal of the lock
file is not refused, nobody opens the journal while one with another path has the lock, and no
process crashes that has it. -/
def Undisturbed (path : Path) (s : State) : Event → Prop
  | .opens .. | .drops _ => True
  | .advances i fault => ∀ c : Client, s.clients[i]? = some c →
    (c.task.Unlinks → c.path.lockPath = path.lockPath → fault = none) ∧
    (c.task.Creates → c.path = path → ∀ (j : Nat) (d : Client), s.clients[j]? = some d →
      d.has.owns = true → d.path.lockPath = path.lockPath → d.path = path)
  | .crashes pid => ∀ (i : Nat) (c : Client), s.clients[i]? = some c → c.has.owns = true →
    c.path.lockPath = path.lockPath → c.pid ≠ pid

/-! ## The lock has an owner -/

/-- A client that is alive has the lock file `q`. -/
def Owned (s : State) (q : Path) : Prop :=
  ∃ (i : Nat) (c : Client), s.clients[i]? = some c ∧ c.path.lockPath = q ∧ c.has.owns = true ∧
    c.task.Live

structure Accounted (path : Path) (s : State) : Prop extends Inv s where
  owned : (s.fs.dir path.lockPath).isSome → Owned s path.lockPath

theorem lockPath_lockPath (h : path.name ≠ []) : path.lockPath.lockPath = path.lockPath :=
  Path.withExtension_idem h (by decide) (by decide)

/-- A call with the lock is alive. -/
theorem Task.At.live {stage : LockStage} (h : task.At path stage) (hstage : stage.Owns) :
    task.Live := by
  cases task with
  | running => trivial
  | crashed => exact (h ▸ hstage : LockStage.outside.Owns).elim
  | ended result =>
    cases result with
    | opened => trivial
    | dropped => exact (h ▸ hstage : LockStage.outside.Owns).elim
    | failed => exact absurd hstage h.not_owns

/-- A lock keeps its owner when a client that has it keeps it. -/
theorem Owned.set {q : Path} {w : FileSystem Path} {c' : Client} (h : Owned s q)
    (hi : s.clients[i]? = some c)
    (hkeep : c.path.lockPath = q → c.has.owns = true → c.task.Live →
      c'.path.lockPath = q ∧ c'.has.owns = true ∧ c'.task.Live) :
    Owned ⟨w, s.clients.set i c'⟩ q := by
  obtain ⟨j, d, hd, hlock, howns, hlive⟩ := h
  by_cases hji : j = i
  · subst hji
    cases hi.symm.trans hd
    obtain ⟨hlt, -⟩ := List.getElem?_eq_some_iff.mp hi
    exact ⟨j, c', List.getElem?_set_self hlt, hkeep hlock howns hlive⟩
  · exact ⟨j, d, (List.getElem?_set_ne (Ne.symm hji)).trans hd, hlock, howns, hlive⟩

theorem Accounted.init (h : s.clients = [] ∧ Unlocked s.fs path) : Accounted path s := by
  refine ⟨.init h.1, fun hthere => ?_⟩
  rw [h.2] at hthere
  cases hthere

theorem Accounted.opens (h : Accounted path s) (H : Step s (.opens pid path' n epochMs) s') :
    Accounted path s' := by
  refine ⟨h.toInv.step H, fun hthere => ?_⟩
  cases H
  obtain ⟨i, c, hc, howned⟩ := h.owned hthere
  obtain ⟨hlt, -⟩ := List.getElem?_eq_some_iff.mp hc
  exact ⟨i, c, (List.getElem?_append_left hlt).trans hc, howned⟩

theorem Accounted.drops (h : Accounted path s) (H : Step s (.drops i) s') :
    Accounted path s' := by
  refine ⟨h.toInv.step H, fun hthere => ?_⟩
  cases H with
  | drops hi => exact (h.owned hthere).set hi fun hlock howns _ => ⟨hlock, howns, trivial⟩

theorem Accounted.crashes (h : Accounted path s) (he : Undisturbed path s (.crashes pid))
    (H : Step s (.crashes pid) s') : Accounted path s' := by
  refine ⟨h.toInv.step H, fun hthere => ?_⟩
  cases H with
  | crashes =>
    rw [dir_closeAll] at hthere
    obtain ⟨i, c, hc, hlock, howns, hlive⟩ := h.owned hthere
    have hsame : (if c.pid = pid then c.crash else c) = c := if_neg (he i c hc howns hlock)
    refine ⟨i, c, ?_, hlock, howns, hlive⟩
    rw [List.getElem?_map, hc, Option.map_some, hsame]

/-- Only the removal of the lock file takes a client with the lock out of the protocol. -/
theorem unlinks_of_outside {β : Type} {stage : LockStage} {o : FsOp Path β} {r : β}
    {k : β → Prog (FsOp Path) CallResult} (hstage : stage.Owns) (hallows : stage.allows path o)
    (hout : stage.next o r = .outside) : (Task.running (.call o k)).Unlinks := by
  cases stage with
  | start | refused | outside => cases hstage
  | locked =>
    cases o with
    | removeFile => trivial
    | openFile => cases r <;> cases hout
    | _ => cases hallows
  | opened =>
    cases o with
    | createNew | openFile | rename | removeFile => cases hallows
    | _ => cases hout

theorem Accounted.advances (hname : path.name ≠ []) (h : Accounted path s)
    (he : Undisturbed path s (.advances i fault)) (H : Step s (.advances i fault) s') :
    Accounted path s' := by
  refine ⟨h.toInv.step H, fun hthere => ?_⟩
  cases H with
  | @advances _ w' _ _ pid path' has β o k r hi hperforms =>
    obtain ⟨stage, hallows, hhas, m, hat, -⟩ := (h.sound hi).advances hperforms
    have hhas' : (stage.next o r).Has w' (has.after o r) :=
      m.has hhas (h.sound hi).file_lt hperforms.keepsClosed
    obtain hold | ⟨hlock, hstage⟩ := m.of_isSome_dir hthere
    · refine (h.owned hold).set hi fun hlock howns _ => ?_
      have hstage := LockStage.owns_of_allows hallows hhas howns
      have hstage' := m.keeps hstage (hlock ▸ hthere)
        fun hout => (he _ hi).1 (unlinks_of_outside hstage hallows hout) hlock
      exact ⟨hlock, hstage'.owns hhas', hat.live hstage'⟩
    · obtain ⟨hlt, -⟩ := List.getElem?_eq_some_iff.mp hi
      have hlock : path'.lockPath = path.lockPath := by
        obtain hlock | hpath := hlock
        · exact hlock.symm
        · rw [← hpath, lockPath_lockPath hname]
      exact ⟨i, _, List.getElem?_set_self hlt, hlock, hstage.owns hhas', hat.live hstage⟩

theorem Accounted.step (hname : path.name ≠ []) (h : Accounted path s)
    (he : Undisturbed path s e) (H : Step s e s') : Accounted path s' := by
  cases e with
  | opens => exact h.opens H
  | advances => exact h.advances hname he H
  | drops => exact h.drops H
  | crashes => exact h.crashes he H

/-- A step that refuses a client has found the file of its lock. -/
theorem Inv.refused (h : Inv s) (H : Step s e s') (href : Refuses s s' i path) :
    ∃ fault c, e = .advances i fault ∧ s.clients[i]? = some c ∧ c.path = path ∧ c.task.Creates ∧
      c.has.owns = false ∧ (s.fs.dir path.lockPath).isSome := by
  obtain ⟨⟨pid, has, rest, hi⟩, c, lock, hc, htask⟩ := href
  have hnot : Task.running rest ≠ .ended (.failed (.alreadyLocked lock)) := nofun
  cases H with
  | opens =>
    obtain ⟨hlt, -⟩ := List.getElem?_eq_some_iff.mp hi
    cases hi.symm.trans ((List.getElem?_append_left hlt).symm.trans hc)
    exact absurd htask hnot
  | drops hj =>
    obtain ⟨rfl, -⟩ | ⟨-, hc⟩ := getElem?_set_cases hc
    · cases hi.symm.trans hj
    · cases hi.symm.trans hc
      exact absurd htask hnot
  | crashes =>
    rw [List.getElem?_map, hi] at hc
    cases hc
    dsimp only at htask
    split at htask
    · cases htask
    · exact absurd htask hnot
  | @advances j _ fault _ _ path' has' β o k r hj hperforms =>
    obtain ⟨rfl, rfl⟩ | ⟨-, hc⟩ := getElem?_set_cases hc
    · cases hi.symm.trans hj
      obtain ⟨stage, hallows, hhas, m, hat, -⟩ := (h.sound hi).advances hperforms
      have hrefused : stage.next o r = .refused := by
        rw [show Task.of (k r) = _ from htask] at hat
        exact hat
      rw [hrefused] at m
      obtain ⟨rfl, hthere⟩ := m.of_refused
      refine ⟨fault, _, rfl, hi, rfl, ?_, hhas.1, hthere⟩
      cases o with
      | createNew => trivial
      | _ => cases hallows
    · cases hi.symm.trans hc
      exact absurd htask hnot

theorem Accounted.justified (h : Accounted path s) (he : Undisturbed path s e) :
    Justified path s e := by
  intro s' i H href
  obtain ⟨fault, c, rfl, hc, rfl, hcreates, hnot, hthere⟩ := h.refused H href
  obtain ⟨j, d, hd, hlock, howns, hlive⟩ := h.owned hthere
  refine ⟨j, d, ?_, hd, (he c hc).2 hcreates rfl j d hd howns hlock, hlive⟩
  rintro rfl
  cases hc.symm.trans hd
  exact absurd (hnot.symm.trans howns) nofun

variable {steps : List (State × Event)}

theorem refusals_justified (hname : path.name ≠ [])
    (H : (system (Unlocked · path)).Run steps s)
    (hsteps : System.Meets (Undisturbed path) steps) : System.Meets (Justified path) steps :=
  H.meets (I := Accounted path) Accounted.init (Accounted.step hname) Accounted.justified hsteps

/-- An open of a journal whose lock file is there is refused. -/
theorem exists_refuses {l : Nat}
    (hi : s.clients[i]? = some ⟨pid, path, has, .of (openCall path n epochMs)⟩)
    (hlock : s.fs.dir path.lockPath = some l) :
    ∃ s', Step s (.advances i none) s' ∧ Refuses s s' i path := by
  obtain ⟨hlt, -⟩ := List.getElem?_eq_some_iff.mp hi
  refine ⟨_, .advances hi (.of_exec (exec_createNew_some hlock)), ⟨_, _, _, hi⟩, ?_⟩
  exact ⟨_, path.lockPath, List.getElem?_set_self hlt, rfl⟩

/-- An operation that is not refused, where all open the same path. -/
theorem undisturbed_of_path (h : ∀ c ∈ s.clients, c.path = path) :
    Undisturbed path s (.advances i none) :=
  fun _ _ => ⟨fun _ _ => rfl, fun _ _ _ d hd _ _ => h d (List.mem_of_getElem? hd)⟩

/-- A process is refused while another is inside `open_or_create`. -/
theorem refusals_justified_second_open : ∃ steps s s',
    (system (Unlocked · driftJournal)).Run (steps ++ [(s, .advances 1 none)]) s' ∧
      System.Meets (Undisturbed driftJournal) (steps ++ [(s, .advances 1 none)]) ∧
      Refuses s s' 1 driftJournal ∧
      System.Meets (Justified driftJournal) (steps ++ [(s, .advances 1 none)]) := by
  have hstart : (system (Unlocked · driftJournal)).Run [] ⟨.empty, []⟩ := .init ⟨rfl, rfl⟩
  have hopens : Step ⟨.empty, []⟩ (.opens 0 driftJournal 100 0)
    ⟨.empty, [.opening 0 driftJournal 100 0]⟩ := .opens
  obtain ⟨locked, w, hpath, hlock, hlocks⟩ : ∃ locked w, locked.path = driftJournal ∧
      (w.dir driftJournal.lockPath).isSome ∧
      Step ⟨.empty, [.opening 0 driftJournal 100 0]⟩ (.advances 0 none) ⟨w, [locked]⟩ := by
    have hlocks := Step.advances (s := ⟨.empty, [.opening 0 driftJournal 100 0]⟩) (i := 0) rfl
      (.of_exec (exec_createNew rfl))
    exact ⟨_, _, rfl, rfl, hlocks⟩
  have hopens' : Step ⟨w, [locked]⟩ (.opens 1 driftJournal 100 0)
    ⟨w, [locked, .opening 1 driftJournal 100 0]⟩ := .opens
  obtain ⟨l, hlock⟩ := Option.isSome_iff_exists.mp hlock
  obtain ⟨s', hadvances, hrefuses⟩ := exists_refuses
    (s := ⟨w, [locked, .opening 1 driftJournal 100 0]⟩) (i := 1) rfl hlock
  have H := (((hstart.step hopens).step hlocks).step hopens').step hadvances
  refine ⟨_, _, s', H, ?_, hrefuses, refusals_justified (by decide) H ?_⟩
  all_goals
    simp only [System.meets_append_singleton]
    refine ⟨⟨⟨⟨nofun, trivial⟩, undisturbed_of_path ?_⟩, trivial⟩, undisturbed_of_path ?_⟩
    · simp [Client.opening]
    · simp [Client.opening, hpath]

/-- The process that has the journal crashes, and the one that opens it next is refused. -/
theorem not_refusals_justified_crash : ∃ steps s,
    (system (Unlocked · driftJournal)).Run steps s ∧
      ¬System.Meets (Justified driftJournal) steps := by
  obtain ⟨steps, has, journal, j, bs, w, H, hpath, hlive⟩ :=
    run_opens (I := (Unlocked · driftJournal)) (w := .empty) 0 driftJournal rfl rfl rfl
  obtain ⟨l, hlock⟩ := Option.isSome_iff_exists.mp hlive.locked
  let crashed : Client := ⟨0, driftJournal, has, .crashed⟩
  obtain ⟨w', hdir, hcrashes⟩ : ∃ w', w'.dir = w.dir ∧
      Step ⟨w, [⟨0, driftJournal, has, .ended (.opened journal)⟩]⟩ (.crashes 0) ⟨w', [crashed]⟩ :=
    ⟨_, dir_closeAll _, .crashes⟩
  rw [hpath, ← hdir] at hlock
  have hopens : Step ⟨w', [crashed]⟩ (.opens 1 driftJournal 100 0)
    ⟨w', [crashed, .opening 1 driftJournal 100 0]⟩ := .opens
  obtain ⟨s', hadvances, hrefuses⟩ := exists_refuses
    (s := ⟨w', [crashed, .opening 1 driftJournal 100 0]⟩) (i := 1) rfl hlock
  refine ⟨_, s', ((H.step hcrashes).step hopens).step hadvances, fun hjustified => ?_⟩
  have hlast := (System.meets_append_singleton.mp hjustified).2
  obtain ⟨j, d, hj, hd, -, halive⟩ := hlast s' 1 hadvances hrefuses
  match j with
  | 0 =>
    cases hd
    exact halive
  | 1 => exact hj rfl
  | j + 2 => cases hd

end Driftbrake.Locks
