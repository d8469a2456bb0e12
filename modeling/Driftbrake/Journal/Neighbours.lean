import Driftbrake.Journal.Compact
import Driftbrake.Journal.LockProtocol
import Driftbrake.Lib.Footprint

/-!
# Journals next to each other

A journal works on three paths: its own, that of its lock file and that of its temporary file,
whose names are its own with another extension. `RunFrom q w₀` are the states that the calls on the
journal at `q` lead to. They keep away from the file at `p` (`KeepsApart`) when none of the three
paths of `q` is a link to it and `q` is not its own lock path; otherwise they do not, unless `q`
cannot be opened at all (`keepsApart_iff`).
-/

namespace Driftbrake

open FileSystem

open JournaledHistory (Call)

/-- The paths that opening the journal at `q` uses. -/
def OpenPath (q r : Path) : Prop := r = q ∨ r = q.lockPath

/-- The paths that any call on the journal at `q` uses. -/
def OwnPath (q r : Path) : Prop := OpenPath q r ∨ r = q.withExtension compactExtension

/-- The states between the calls on the journal at `q`, which is closed in `w₀`. Calls may fail, and
an open may be refused at any time. -/
inductive RunFrom (q : Path) (w₀ : FileSystem Path) :
    FileSystem Path → Option JournaledHistory → Prop
  | start : RunFrom q w₀ w₀ none
  | opened : RunFrom q w₀ w none →
    (openOrCreate q n epochMs).run exec w = (.ok journal, w') → RunFrom q w₀ w' (some journal)
  | refused : RunFrom q w₀ w live →
    (openOrCreate q n epochMs).run exec w = (.error e, w') → RunFrom q w₀ w' live
  | recorded (call : Call) : RunFrom q w₀ w (some journal) →
    (journal.record call.timestampMs call.entry).run exec w = ((r, journal'), w') →
    RunFrom q w₀ w' (some journal')
  | compacted : RunFrom q w₀ w (some journal) →
    (journal.compact epochMs).run exec w = ((r, journal'), w') → RunFrom q w₀ w' (some journal')
  | closed : RunFrom q w₀ w (some journal) → journal.drop.run exec w = ((), w') →
    RunFrom q w₀ w' none

/-- The calls on the journal at `q` do not change the file at `p`, and closing the journal leaves
its own file where it is. -/
structure KeepsApart (w₀ : FileSystem Path) (p q : Path) : Prop where
  bytes : ∀ {w live}, RunFrom q w₀ w live → w.lookup p = w₀.lookup p
  file : ∀ {w w' journal}, RunFrom q w₀ w (some journal) → journal.drop.run exec w = ((), w') →
    w'.lookup q = w.lookup q

variable {w w₀ w' : FileSystem Path} {p q r : Path} {i j file : Nat} {bs : List UInt8}
  {journal : JournaledHistory} {live : Option JournaledHistory} {N : Path → Prop} {n : Nat}
  {epochMs : UInt64} {α : Type}

/-! ## The operations of the calls -/

theorem FsOp.file_of_on {β : Type} {o : FsOp Path β} (ho : FsOp.On file o) :
    o.file? = some file := by
  cases o with
  | close => cases ho
  | _ => exact ho

theorem FsOp.within_of_file {β : Type} {o : FsOp Path β} (ho : o.file? = some file) :
    o.Within N := by
  cases o with
  | createNew | openFile | rename | removeFile => cases ho
  | _ => trivial

theorem FsOp.spares_of_file {β : Type} {o : FsOp Path β} (ho : o.file? = some file) :
    o.Spares r := by
  cases o with
  | createNew | openFile | rename | removeFile => cases ho
  | _ => trivial

theorem writeFrame_worksOn (tag : UInt8) (payload : List UInt8) :
    WorksOn file (writeFrame file tag payload) :=
  .bindE io_worksOn fun _ => io_worksOn

theorem writeRecord_worksOn (tag : UInt8) (payload : List UInt8) :
    WorksOn file (writeRecord file tag payload) :=
  (writeFrame_worksOn tag payload).bindE fun _ => io_worksOn

theorem writeEntries_worksOn (es : List HistoryEntry) :
    WorksOn file (JournaledHistory.writeEntries file es) := by
  induction es with
  | nil => exact Prog.uses_pureE _
  | cons e es ih =>
    rw [writeEntries_cons]
    exact (writeFrame_worksOn _ _).bindE fun _ => ih

theorem writeSnapshot_worksOn (epochMs : UInt64) (es : List HistoryEntry) :
    WorksOn file (JournaledHistory.writeSnapshot file epochMs es) :=
  .bindE io_worksOn fun _ => (writeEntries_worksOn es).bindE fun _ => io_worksOn

section
variable {φ : {β : Type} → FsOp Path β → Prop}

theorem WorksOn.uses {prog : Io α} (h : WorksOn file prog)
    (hφ : ∀ {β : Type} {o : FsOp Path β} {fd}, o.file? = some fd → φ o) :
    prog.run.Uses φ fun _ => True :=
  h.mono (fun ho => hφ (FsOp.file_of_on ho)) fun _ _ => trivial

theorem openOrCreate_uses (hlock : φ (.createNew q.lockPath)) (hopen : φ (.openFile q true false))
    (hremove : φ (.removeFile q.lockPath))
    (hφ : ∀ {β : Type} {o : FsOp Path β} {fd}, o.file? = some fd → φ o) :
    (openOrCreate q n epochMs).Uses φ fun r => ∀ journal, r = .ok journal → journal.path = q := by
  have herror : ∀ {e : JournalError} journal, Except.error e = .ok journal →
      JournaledHistory.path journal = q := by
    intro e journal h
    cases h
  refine ⟨hlock, fun locked => ?_⟩
  rcases locked with e | _
  · cases e <;> exact herror
  refine ⟨hopen, fun opened => ?_⟩
  rcases opened with e | file
  · exact ⟨hremove, fun _ => herror⟩
  refine ((recover_worksOn epochMs).uses hφ).bind fun recovered _ => ?_
  cases recovered with
  | error e => exact ⟨hφ rfl, fun _ => ⟨hremove, fun _ => herror⟩⟩
  | ok inner =>
    intro journal h
    cases h
    rfl

theorem drop_uses (hremove : φ (.removeFile journal.path.lockPath))
    (hφ : ∀ {β : Type} {o : FsOp Path β} {fd}, o.file? = some fd → φ o) :
    journal.drop.Uses φ fun _ => True :=
  ⟨hφ rfl, fun _ => ⟨hremove, fun _ => trivial⟩⟩

theorem record_uses (timestampMs : UInt64) (e : HistoryEntry)
    (hφ : ∀ {β : Type} {o : FsOp Path β} {fd}, o.file? = some fd → φ o) :
    (journal.record timestampMs e).Uses φ fun r => r.2.path = journal.path := by
  rw [record_eq_commit]
  refine ((writeRecord_worksOn _ _).uses hφ).bind fun written _ => ?_
  cases written <;> exact rfl

theorem compact_uses (epochMs : UInt64) (htemp : φ (.openFile journal.tempPath true true))
    (hrename : φ (.rename journal.tempPath journal.path))
    (hopen : φ (.openFile journal.path false false))
    (hφ : ∀ {β : Type} {o : FsOp Path β} {fd}, o.file? = some fd → φ o) :
    (journal.compact epochMs).Uses φ fun r => r.2.path = journal.path := by
  rw [JournaledHistory.compact]
  split
  · exact rfl
  refine ⟨htemp, fun opened => ?_⟩
  rcases opened with e | temp
  · exact rfl
  refine ((writeSnapshot_worksOn _ _).uses hφ).bind fun written _ => ⟨hφ rfl, fun _ => ?_⟩
  rcases written with e | _
  · exact rfl
  refine ⟨hrename, fun renamed => ?_⟩
  rcases renamed with e | _
  · exact rfl
  refine ⟨hopen, fun reopened => ?_⟩
  rcases reopened with e | file
  · exact rfl
  refine ⟨hφ rfl, fun _ => ⟨hφ rfl, fun sought => ?_⟩⟩
  cases sought <;> exact rfl

end

theorem openOrCreate_within : (openOrCreate q n epochMs).Uses (FsOp.Within (OpenPath q))
    fun r => ∀ journal, r = .ok journal → journal.path = q :=
  openOrCreate_uses (.inr rfl) (.inl rfl) (.inr rfl) FsOp.within_of_file

theorem openOrCreate_spares (h : r ≠ q.lockPath) : (openOrCreate q n epochMs).Uses
    (FsOp.Spares r) fun r => ∀ journal, r = .ok journal → journal.path = q :=
  openOrCreate_uses trivial trivial h.symm FsOp.spares_of_file

theorem drop_within (h : journal.path = q) :
    journal.drop.Uses (FsOp.Within (OwnPath q)) fun _ => True :=
  drop_uses (.inl (.inr (h ▸ rfl))) FsOp.within_of_file

theorem record_within (timestampMs : UInt64) (e : HistoryEntry) :
    (journal.record timestampMs e).Uses (FsOp.Within N) fun r => r.2.path = journal.path :=
  record_uses timestampMs e FsOp.within_of_file

theorem compact_within (h : journal.path = q) : (journal.compact epochMs).Uses
    (FsOp.Within (OwnPath q)) fun r => r.2.path = journal.path := by
  have htemp : OwnPath q journal.tempPath := .inr (h ▸ rfl)
  exact compact_uses epochMs htemp ⟨htemp, .inl (.inl h)⟩ (.inl (.inl h)) FsOp.within_of_file

theorem compact_spares (hpath : r ≠ journal.path) (htemp : r ≠ journal.tempPath) :
    (journal.compact epochMs).Uses (FsOp.Spares r) fun r => r.2.path = journal.path :=
  compact_uses epochMs trivial ⟨htemp.symm, hpath.symm⟩ trivial FsOp.spares_of_file

/-! ## Runs -/

/-- Where every open is refused, nothing else happens. -/
theorem RunFrom.of_refused {I : FileSystem Path → Prop} (H : RunFrom q w₀ w live)
    (hstart : I w₀)
    (hopen : ∀ {w} n epochMs, I w → ∃ e w', (openOrCreate q n epochMs).run exec w = (.error e, w') ∧
      I w') : live = none ∧ I w := by
  induction H with
  | start => exact ⟨rfl, hstart⟩
  | @opened _ n epochMs _ _ _ hrun ih =>
    obtain ⟨e, w', hrefused, _⟩ := hopen n epochMs ih.2
    cases hrun.symm.trans hrefused
  | @refused _ _ n epochMs _ _ _ hrun ih =>
    obtain ⟨e, w', hrefused, hI⟩ := hopen n epochMs ih.2
    cases hrun.symm.trans hrefused
    exact ⟨ih.1, hI⟩
  | recorded _ _ _ ih => cases ih.1
  | compacted _ _ ih => cases ih.1
  | closed _ _ ih => cases ih.1

theorem keepsApart_of_refused {I : FileSystem Path → Prop} (hstart : I w₀)
    (hopen : ∀ {w} n epochMs, I w → ∃ e w', (openOrCreate q n epochMs).run exec w = (.error e, w') ∧
      I w') (hbytes : ∀ {w}, I w → w.lookup p = w₀.lookup p) : KeepsApart w₀ p q where
  bytes H := hbytes (H.of_refused hstart hopen).2
  file H := by cases (H.of_refused hstart hopen).1

theorem RunFrom.path (H : RunFrom q w₀ w live) : ∀ journal ∈ live, journal.path = q := by
  induction H with
  | start => exact nofun
  | opened _ hrun =>
    intro journal hlive
    exact openOrCreate_within.result hrun journal (congrArg Except.ok (Option.mem_some.mp hlive))
  | refused _ _ ih => exact ih
  | recorded _ _ hrun ih =>
    intro journal' hlive
    cases hlive
    exact ((record_within (N := OwnPath q) _ _).result hrun).trans (ih _ rfl)
  | compacted _ hrun ih =>
    intro journal' hlive
    cases hlive
    exact ((compact_within (ih _ rfl)).result hrun).trans (ih _ rfl)
  | closed => exact nofun

/-- A file that is apart from the paths of the journal is not touched by its calls. -/
theorem RunFrom.untouched (H : RunFrom q w₀ w live) (h : Apart (OwnPath q) i w₀) :
    Untouched (OwnPath q) i w₀ w := by
  have hopen : ∀ {n epochMs}, (openOrCreate q n epochMs).Uses (FsOp.Within (OwnPath q))
      fun _ => True :=
    openOrCreate_within.mono (fun ho => ho.mono fun _ => .inl) fun _ _ => trivial
  induction H with
  | start => exact .refl h
  | opened _ hrun ih | refused _ hrun ih => exact ih.trans (ih.apart.run hopen hrun)
  | recorded _ _ hrun ih => exact ih.trans (ih.apart.run (record_within _ _) hrun)
  | compacted H hrun ih =>
    exact ih.trans (ih.apart.run (compact_within (H.path _ rfl)) hrun)
  | closed H hrun ih => exact ih.trans (ih.apart.run (drop_within (H.path _ rfl)) hrun)

theorem RunFrom.lookup_drop (H : RunFrom q w₀ w (some journal)) (hne : q ≠ q.lockPath)
    (hrun : journal.drop.run exec w = ((), w')) : w'.lookup q = w.lookup q := by
  have hpath : journal.path = q := H.path _ rfl
  cases hlock : w.dir q.lockPath with
  | none =>
    have hremove := exec_removeFile_none (w := w.closeFd journal.file) (p := journal.path.lockPath)
      (by rw [dir_closeFd, hpath, hlock])
    cases hrun.symm.trans ((Prog.run_step (exec_close ..)).trans (Prog.run_step hremove))
    rfl
  | some l =>
    cases hrun.symm.trans (drop_run_of_locked (by rw [hpath, hlock]; rfl))
    rw [hpath, lookup_unlink hne, lookup_closeFd]

/-! ## Where the journals keep apart -/

/-- What is there does not have the name of a lock that nobody holds. -/
theorem Unlocked.ne_lockPath (h : Unlocked w q) (hr : w.dir r = some i) : r ≠ q.lockPath :=
  ne_of_dir_none hr h

theorem keepsApart_of_apart (h : Apart (OwnPath q) i w₀) (hp : w₀.dir p = some i)
    (hne : q ≠ q.lockPath) : KeepsApart w₀ p q where
  bytes H := (H.untouched h).lookup h hp
  file H hrun := H.lookup_drop hne hrun

theorem keepsApart_of_locked (h : ¬Unlocked w₀ q) : KeepsApart w₀ p q := by
  obtain ⟨l, hl⟩ := Option.ne_none_iff_exists'.mp h
  refine keepsApart_of_refused (I := (· = w₀)) rfl (fun {w} n epochMs hw => ?_) fun hw => by rw [hw]
  subst hw
  exact ⟨_, w, Prog.run_step (exec_createNew_some hl), rfl⟩

/-- An open that finds a malformed file leaves the files as they are. -/
theorem keepsApart_of_malformed (hp : w₀.dir p = some i)
    (hclosed : ∀ fd f, w₀.handles fd = some f → f.inode ≠ i) (hlock : Unlocked w₀ q)
    (h : Malformed (contentAt w₀ q)) : KeepsApart w₀ p q := by
  obtain ⟨hnil, e, he⟩ := malformed_iff.mp h
  obtain ⟨bs, hbs⟩ : ∃ bs, w₀.lookup q = some bs :=
    Option.ne_none_iff_exists'.mp fun hnone => hnil (contentAt_of_none hnone)
  rw [contentAt_of_lookup hbs] at hnil he
  by_cases hq : w₀.dir q = some i
  · -- the two are one file, and its names stay
    refine keepsApart_of_refused (I := fun w => Unlocked w q ∧ w.lookup q = some bs ∧
      w.dir q = some i ∧ w.dir p = some i) ⟨hlock, hbs, hq, hp⟩ (fun {w} n epochMs hw => ?_)
      fun {w} hw => ?_
    · obtain ⟨hlock', hbs, hwq, hwp⟩ := hw
      obtain ⟨w', hrun, hbs', hunlocked⟩ :=
        openOrCreate_refuses n epochMs hlock' (contentAt_of_lookup hbs) hnil he
      exact ⟨e, w', hrun, hunlocked, hbs',
        dir_run_of_spares hwq (openOrCreate_spares (hlock.ne_lockPath hq)) hrun,
        dir_run_of_spares hwp (openOrCreate_spares (hlock.ne_lockPath hp)) hrun⟩
    · obtain ⟨_, hbs', hwq, hwp⟩ := hw
      rw [FileSystem.lookup, hwp, ← hwq, FileSystem.lookup, hp, ← hq]
      exact hbs'.trans hbs.symm
  · have hapart : Apart (OpenPath q) i w₀ := by
      refine ⟨w₀.dir_lt hp, fun {r} hr => ?_, fun {fd f} => hclosed fd f⟩
      rcases hr with rfl | rfl
      · exact hq
      · rw [hlock]
        exact (Option.some_ne_none i).symm
    refine keepsApart_of_refused (I := fun w => Unlocked w q ∧ w.lookup q = some bs ∧
      Untouched (OpenPath q) i w₀ w) ⟨hlock, hbs, .refl hapart⟩ (fun {w} n epochMs hw => ?_)
      fun {w} hw => hw.2.2.lookup hapart hp
    obtain ⟨hlock', hbs, hw⟩ := hw
    obtain ⟨w', hrun, hbs', hunlocked⟩ :=
      openOrCreate_refuses n epochMs hlock' (contentAt_of_lookup hbs) hnil he
    exact ⟨e, w', hrun, hunlocked, hbs', hw.trans (hw.apart.run openOrCreate_within hrun)⟩

/-! ## Where they do not -/

/-- A journal that has its own lock path is removed when it is closed. -/
theorem not_keepsApart_of_lock (hlock : Unlocked w₀ q) (hself : q = q.lockPath) :
    ¬KeepsApart w₀ p q := by
  intro H
  obtain ⟨_, w, hrun, hlive, _⟩ := openOrCreate_new 0 0 hlock (contentAt_self hlock hself)
  have hfile := H.file (.opened .start hrun) (drop_run hlive)
  rw [hlive.lookup] at hfile
  cases (lookup_drop_self w q w₀.fds hself).symm.trans hfile

/-- A call writes to the file of the journal, whatever its other names are. -/
theorem not_keepsApart_of_linked (H : RunFrom q w₀ w (some journal)) (h : Live w journal i bs)
    (hp : w.dir p = some i) : ¬KeepsApart w₀ p q := by
  intro hkeeps
  obtain ⟨w', hrun, hlive, hdir, _⟩ := record_ok h (.trade 100 90) 0
  have hbefore := hkeeps.bytes H
  have hafter := hkeeps.bytes (.recorded ⟨0, .trade 100 90⟩ H hrun)
  have hp' : w'.dir p = some i := by rw [hdir, hp]
  rw [h.openAt.lookup hp, ← hafter, hlive.openAt.lookup hp'] at hbefore
  exact frameCode.bytes_ne_nil _ (List.self_eq_append_right.mp (Option.some.inj hbefore))

theorem exists_live (n : Nat) (epochMs : UInt64) (hlock : Unlocked w q)
    (hgood : ¬Malformed (contentAt w q)) : ∃ journal w' i bs,
      (openOrCreate q n epochMs).run exec w = (.ok journal, w') ∧ Live w' journal i bs ∧
      journal.path = q ∧ journal.maxRetainedEntries = n := by
  obtain ⟨_, _, i, w', _, _, hrun, hlive⟩ := exists_open n epochMs hlock rfl hgood
  exact ⟨_, w', i, _, hrun, hlive, rfl, rfl⟩

theorem not_keepsApart_of_eq (hp : w₀.dir p = some i) (hq : w₀.dir q = some i)
    (hlock : Unlocked w₀ q) (hgood : ¬Malformed (contentAt w₀ q)) : ¬KeepsApart w₀ p q := by
  obtain ⟨journal, w, j, bs, hrun, hlive, hpath, _⟩ := exists_live 0 0 hlock hgood
  have hwp := dir_run_of_spares hp (openOrCreate_spares (hlock.ne_lockPath hp)) hrun
  have hwq := dir_run_of_spares hq (openOrCreate_spares (hlock.ne_lockPath hq)) hrun
  have hentry := hlive.entry
  rw [hpath, hwq] at hentry
  cases hentry
  exact not_keepsApart_of_linked (.opened .start hrun) hlive hwp

/-- A compaction cuts the file that it finds at the path of its temporary file. -/
theorem not_keepsApart_of_temp (hp : w₀.dir p = some i)
    (htemp : w₀.dir (q.withExtension compactExtension) = some i) (hq : w₀.dir q ≠ some i)
    (hlock : Unlocked w₀ q) (hgood : ¬Malformed (contentAt w₀ q)) : ¬KeepsApart w₀ p q := by
  have hpq : p ≠ q := fun heq => hq (heq ▸ hp)
  have hpl := hlock.ne_lockPath hp
  obtain ⟨journal, w₁, j, bs, hrun₁, hlive₁, rfl, hmax⟩ := exists_live 0 0 hlock hgood
  have hp₁ := dir_run_of_spares hp (openOrCreate_spares hpl) hrun₁
  have htemp₁ := dir_run_of_spares htemp (openOrCreate_spares (hlock.ne_lockPath htemp)) hrun₁
  obtain ⟨w₂, hrun₂, hlive₂, hdir₂, _⟩ := record_ok hlive₁ (.trade 100 90) 0
  rw [← hdir₂] at hp₁ htemp₁
  have H₂ := RunFrom.recorded ⟨0, .trade 100 90⟩ (.opened .start hrun₁) hrun₂
  obtain ⟨file, t, j', _, _, _, w₃, H⟩ := exists_compaction hlive₂ 0
  have hlong : journal.maxRetainedEntries <
      (journal.inner.apply (.trade 100 90)).timeline.length := by
    rw [hmax, ReconcileHistory.timeline_apply, List.length_append]
    exact Nat.succ_pos _
  have hrun₃ := H.run hlong
  have H₃ := RunFrom.compacted H₂ hrun₃
  have hlive₃ := H.installation.live
  by_cases hpt : p = journal.tempPath
  · -- the file has been renamed over the journal
    intro hkeeps
    have hsame := hkeeps.bytes H₃
    have hgone : w₃.dir p = none := by
      rw [hpt]
      exact H.installation.gone fun heq => hpq (hpt.trans heq)
    rw [lookup_eq_none_iff.mpr hgone, FileSystem.lookup, hp] at hsame
    cases hsame
  · -- another name of it is one of the journal now
    have hp₃ := dir_run_of_spares hp₁ (compact_spares (by exact hpq) (by exact hpt)) hrun₃
    have hentry := hlive₃.entry
    rw [show w₃.dir journal.path = some i from H.entry_of_temp htemp₁] at hentry
    cases hentry
    exact not_keepsApart_of_linked H₃ hlive₃ hp₃

/-- **The frame of a journal.** Let there be a file at `p` that nobody has open. The calls on the
journal at `q` do not change it, and closing the journal does not remove its own file, if and only
if `q` cannot be opened, or neither `q` nor the path of its temporary file is a name of the file at
`p` and `q` does not have the extension of a lock. -/
theorem keepsApart_iff (hp : w₀.dir p = some i)
    (hclosed : ∀ fd f, w₀.handles fd = some f → f.inode ≠ i) :
    KeepsApart w₀ p q ↔ (Unlocked w₀ q → ¬Malformed (contentAt w₀ q) →
      w₀.dir q ≠ w₀.dir p ∧ w₀.dir (q.withExtension compactExtension) ≠ w₀.dir p ∧
        q.extension ≠ some lockExtension) := by
  rw [hp]
  by_cases hlock : Unlocked w₀ q
  · by_cases hbad : Malformed (contentAt w₀ q)
    · exact iff_of_true (keepsApart_of_malformed hp hclosed hlock hbad) fun _ h => absurd hbad h
    · refine ⟨fun H _ _ => ⟨fun hq => ?_, fun htemp => ?_, fun hext => ?_⟩, fun H => ?_⟩
      · exact not_keepsApart_of_eq hp hq hlock hbad H
      · by_cases hq : w₀.dir q = some i
        · exact not_keepsApart_of_eq hp hq hlock hbad H
        · exact not_keepsApart_of_temp hp htemp hq hlock hbad H
      · exact not_keepsApart_of_lock hlock (eq_lockPath_iff.mpr hext) H
      · obtain ⟨hq, htemp, hext⟩ := H hlock hbad
        refine keepsApart_of_apart ⟨w₀.dir_lt hp, fun {r} hr => ?_, fun {fd f} => hclosed fd f⟩ hp
          (ne_lockPath_iff.mpr hext)
        rcases hr with (rfl | rfl) | rfl
        · exact hq
        · rw [hlock]
          exact (Option.some_ne_none i).symm
        · exact htemp
  · exact iff_of_true (keepsApart_of_locked hlock) fun h => absurd h hlock

/-- A journal beside one whose name has another stem. -/
theorem keepsApart_other_journal :
    KeepsApart (.ofFile driftJournal (header 7)) driftJournal
      ⟨"/var/lib", "other.journal".toList⟩ := by
  have hp : (.ofFile driftJournal (header 7) : FileSystem Path).dir driftJournal = some 0 := rfl
  refine (keepsApart_iff hp fun _ _ h => ?_).mpr fun _ _ => ⟨?_, ?_, ?_⟩
  · cases h
  all_goals decide

/-- A journal named `drift.compact` is overwritten by the one named `drift.journal`, and a journal
named `drift.lock` is removed when it is closed. -/
theorem not_keepsApart_compact_lock :
    ¬KeepsApart (.ofFile (driftJournal.withExtension compactExtension) (header 7))
      (driftJournal.withExtension compactExtension) driftJournal ∧
    ¬KeepsApart (.ofFile driftJournal (header 7)) driftJournal
      ⟨"/var/lib", "drift.lock".toList⟩ := by
  have hjournal : (.ofFile (driftJournal.withExtension compactExtension) (header 7) :
      FileSystem Path).dir driftJournal = none := by decide
  refine ⟨not_keepsApart_of_temp (i := 0) rfl rfl ?_ ?_ ?_, not_keepsApart_of_lock ?_ ?_⟩
  · rw [hjournal]
    exact (Option.some_ne_none 0).symm
  · show (_ : Option Nat) = none
    decide
  · rw [contentAt_of_none (lookup_eq_none_iff.mpr hjournal)]
    exact fun h => h.1 rfl
  · show (_ : Option Nat) = none
    decide
  · decide

end Driftbrake
