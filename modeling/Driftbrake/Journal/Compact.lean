import Driftbrake.Journal.Recovery
import Driftbrake.Lib.Interference

/-!
# Compaction

What `compact` does to a live journal with more entries than it retains: the file at its path is
replaced by a snapshot of the last entries of the memory (`compact_ok`), in one step for whoever
looks at the path. The memory is not cut.
-/

namespace Driftbrake

open FileSystem

variable {S : List UInt8 → Prop} {w : FileSystem Path} {journal : JournaledHistory}
  {file i : Nat} {bs : List UInt8}

/-- The frames that a snapshot has for some entries. -/
def snapshotFrames (es : List HistoryEntry) : List Frame := es.map (Frame.ofEntry · 0)

theorem entries_snapshotFrames (es : List HistoryEntry) :
    entries (snapshotFrames es) = es.map (·.persisted) := by
  simp [entries, snapshotFrames]

/-- The entries that `compact` keeps, and the file it makes of them. -/
def JournaledHistory.retained (journal : JournaledHistory) : List HistoryEntry :=
  journal.inner.timeline.rtake journal.maxRetainedEntries

def JournaledHistory.snapshot (journal : JournaledHistory) (epochMs : UInt64) : List UInt8 :=
  image (.new epochMs) (snapshotFrames journal.retained)

open JournaledHistory

theorem writeEntries_cons (file : Nat) (e : HistoryEntry) (es : List HistoryEntry) :
    writeEntries file (e :: es) = (do
      writeFrame file e.tag (e.encode 0)
      writeEntries file es) := by
  cases e <;> rfl

theorem writeEntries_effect (es : List HistoryEntry) (hS : ∀ c, S c) :
    Effect S file i bs.length bs (writeEntries file es) (.ok ())
      (bs ++ frameCode.encode (snapshotFrames es)).length
      (bs ++ frameCode.encode (snapshotFrames es)) := by
  induction es generalizing bs with
  | nil =>
    rw [snapshotFrames, List.map_nil, FrameCode.encode_nil, List.append_nil]
    exact .pure () (hS _)
  | cons e es ih =>
    rw [writeEntries_cons, snapshotFrames, List.map_cons, FrameCode.encode_cons,
      ← List.append_assoc]
    exact (writeFrame_effect (hS _) (hS _) (hS _)).bind ih

theorem writeSnapshot_effect (epochMs : UInt64) (es : List HistoryEntry) (hS : ∀ c, S c) :
    Effect S file i 0 [] (writeSnapshot file epochMs es) (.ok ())
      (image (.new epochMs) (snapshotFrames es)).length
      (image (.new epochMs) (snapshotFrames es)) := by
  exact (Effect.attempt_ok (acts_writeAll_start _) (hS _) (hS _)).bind
    ((writeEntries_effect es hS).bind (.attempt_ok acts_flush (hS _) (hS _)))

theorem compactPath_ne_lockPath (path : Path) :
    path.withExtension compactExtension ≠ path.lockPath := fun h =>
  absurd (Path.withExtension_inj (by decide) (by decide) h) (by decide)

theorem tempPath_ne_lockPath (journal : JournaledHistory) :
    journal.tempPath ≠ journal.path.lockPath :=
  compactPath_ne_lockPath journal.path

theorem compact_short (h : journal.inner.timeline.length ≤ journal.maxRetainedEntries)
    (epochMs : UInt64) : journal.compact epochMs = pure (.ok (), journal) := by
  rw [compact, if_pos h]

/-- An installation: the temporary file takes the place of the journal at once, is opened in `w₂`
at its start, the old handle is closed, and the journal goes on at its end in `w₃`. -/
structure Installation (journal : JournaledHistory) (new : List UInt8) (file i : Nat)
    (w w₂ w₃ : FileSystem Path) : Prop where
  rename : exec (.rename journal.tempPath journal.path) w =
    (.ok (), w.renameEntry journal.tempPath journal.path)
  reopen : exec (.openFile journal.path false false)
    (w.renameEntry journal.tempPath journal.path) = (.ok file, w₂)
  seek : exec (.seekEnd file) (w₂.closeFd journal.file) = (.ok (), w₃)
  replaced : (w.renameEntry journal.tempPath journal.path).lookup journal.path = some new
  renamed_locked : ((w.renameEntry journal.tempPath journal.path).dir journal.path.lockPath).isSome
  entry : w₂.dir journal.path = some i
  openAt : (w₂.closeFd journal.file).OpenAt file i 0 new
  locked : (w₂.dir journal.path.lockPath).isSome
  live : Live w₃ { journal with file } i new
  gone : journal.tempPath ≠ journal.path → w₃.dir journal.tempPath = none

theorem exists_installation {t : Nat} {new : List UInt8} {old : OpenFile}
    (h : w.handles journal.file = some old)
    (hlocked : (w.dir journal.path.lockPath).isSome) (htemp : w.dir journal.tempPath = some t)
    (hnew : w.content t = new) : ∃ file i w₂ w₃, Installation journal new file i w w₂ w₃ := by
  let w₁ := w.renameEntry journal.tempPath journal.path
  have hpath : w₁.dir journal.path = some t := by rw [dir_renameEntry, if_pos rfl, htemp]
  have hlookup : w₁.lookup journal.path = some new := lookup_renameEntry htemp hnew
  have hlocked₁ : (w₁.dir journal.path.lockPath).isSome :=
    isSome_dir_renameEntry htemp (tempPath_ne_lockPath journal).symm hlocked
  obtain ⟨i, w₂, hopen, ho⟩ :=
    exec_openFile w₁ journal.path false false (.inr (by rw [hpath]; rfl))
  rw [if_neg (by decide), hlookup, Option.getD_some] at ho
  -- the old handle is still open, so it is not the new one
  have hne : w₁.fds ≠ journal.file := Nat.ne_of_gt (w₁.handles_lt h)
  have hat := ho.openAt.closeFd hne
  obtain ⟨w₃, hseek, hat₃, hsame⟩ := acts_seekEnd _ hat
  have hlocked₂ : (w₂.dir journal.path.lockPath).isSome := by
    by_cases hpl : journal.path.lockPath = journal.path
    · rw [hpl, ho.entry]
      rfl
    · rw [ho.dir hpl]
      exact hlocked₁
  refine ⟨w₁.fds, i, w₂, w₃, exec_rename htemp, hopen, hseek, hlookup, hlocked₁, ho.entry, hat,
    hlocked₂, ⟨?_, hat₃, ?_⟩, fun hpt => ?_⟩
  · rw [hsame.dir, dir_closeFd, ho.entry]
  · rw [hsame.dir, dir_closeFd]
    exact hlocked₂
  · rw [hsame.dir, dir_closeFd, ho.dir hpt, dir_renameEntry, if_neg hpt, if_pos rfl]

namespace Installation

variable {new : List UInt8} {w₂ w₃ : FileSystem Path} (h : Installation journal new file i w w₂ w₃)
include h

theorem run : journal.install.run exec w = ((.ok (), { journal with file }), w₃) := by
  refine (Prog.run_step h.rename).trans ?_
  refine (Prog.run_step h.reopen).trans ?_
  refine (Prog.run_step (exec_close ..)).trans ?_
  exact Prog.run_step h.seek

theorem visits {v : FileSystem Path} (hv : journal.install.Visits exec w v) :
    v = w ∨ v.lookup journal.path = some new := by
  rcases Prog.visits_step h.rename hv with rfl | hv
  · exact .inl rfl
  refine .inr ?_
  rcases Prog.visits_step h.reopen hv with rfl | hv
  · exact h.replaced
  rcases Prog.visits_step (exec_close ..) hv with rfl | hv
  · exact h.openAt.lookup h.entry
  rcases Prog.visits_step h.seek hv with rfl | hv
  · exact h.openAt.lookup h.entry
  · cases (hv : v = w₃)
    exact h.live.lookup

end Installation

/-- The journal is untouched while the temporary file is written beside it. -/
theorem Live.beside_temp {t : Nat} {w₁ w₂ : FileSystem Path} (h : Live w journal i bs)
    (hpt : journal.tempPath ≠ journal.path) (htemp : w.dir journal.tempPath ≠ some i)
    (ho : Opened w w₁ journal.tempPath w.fds t []) (hsame : SameBut w.fds t w₁ w₂) :
    Live w₂ journal i bs ∧ i ≠ t := by
  have hentry : w₁.dir journal.path = some i := by rw [ho.dir hpt.symm, h.entry]
  have hit : i ≠ t := by
    rintro rfl
    refine ho.unlinked hpt.symm (fun j hj hpj => htemp ?_) hentry
    rw [hj, ← hpj, h.entry]
  have hfile : journal.file ≠ w.fds := Nat.ne_of_lt (w.handles_lt h.openAt.handle)
  have hat : w₁.OpenAt journal.file i bs.length bs :=
    ⟨(ho.handles hfile).trans h.openAt.handle, (ho.content hit).trans h.openAt.content⟩
  refine ⟨⟨?_, hat.frame hsame hfile hit, ?_⟩, hit⟩
  · rw [hsame.dir, hentry]
  · rw [hsame.dir, ho.dir (tempPath_ne_lockPath journal).symm]
    exact h.locked

/-- The stages of a compaction: the temporary file is opened in `w₁` and holds the snapshot in `w₂`,
and the installation goes on from there to `w₄`. -/
structure Compaction (journal : JournaledHistory) (epochMs : UInt64) (file t i : Nat)
    (w w₁ w₂ w₃ w₄ : FileSystem Path) : Prop where
  opening : exec (.openFile journal.tempPath true true) w = (.ok w.fds, w₁)
  opened : Opened w w₁ journal.tempPath w.fds t []
  writing : (writeSnapshot w.fds epochMs journal.retained).run.run exec w₁ = (.ok (), w₂)
  written : SameBut w.fds t w₁ w₂
  visits : ∀ {v}, (writeSnapshot w.fds epochMs journal.retained).run.Visits exec w₁ v →
    SameBut w.fds t w₁ v
  installation : Installation journal (journal.snapshot epochMs) file i (w₂.closeFd w.fds) w₃ w₄

theorem exists_compaction (h : Live w journal i bs) (epochMs : UInt64) :
    ∃ file t i' w₁ w₂ w₃ w₄, Compaction journal epochMs file t i' w w₁ w₂ w₃ w₄ := by
  obtain ⟨t, w₁, hopen, ho⟩ := exec_openFile w journal.tempPath true true (.inl rfl)
  obtain ⟨⟨w₂, hwrite, hat, hsame⟩, hvis⟩ := writeSnapshot_effect (S := fun _ => True) epochMs
    journal.retained (fun _ => trivial) w₁ ho.openAt
  have hfile : journal.file ≠ w.fds := Nat.ne_of_lt (w.handles_lt h.openAt.handle)
  have hhandle : (w₂.closeFd w.fds).handles journal.file = some ⟨i, bs.length⟩ := by
    rw [handles_closeFd_of_ne hfile, hsame.handles hfile, ho.handles hfile, h.openAt.handle]
  have hlocked : ((w₂.closeFd w.fds).dir journal.path.lockPath).isSome := by
    rw [dir_closeFd, hsame.dir, ho.dir (tempPath_ne_lockPath journal).symm]
    exact h.locked
  have htempDir : (w₂.closeFd w.fds).dir journal.tempPath = some t := by
    rw [dir_closeFd, hsame.dir, ho.entry]
  obtain ⟨file, i', w₃, w₄, hinstall⟩ := exists_installation hhandle hlocked htempDir hat.content
  exact ⟨file, t, i', w₁, w₂, w₃, w₄, hopen, ho, hwrite, hsame, fun hv => (hvis _ hv).1, hinstall⟩

namespace Compaction

variable {epochMs : UInt64} {t i' : Nat} {w₁ w₂ w₃ w₄ : FileSystem Path}
  (H : Compaction journal epochMs file t i' w w₁ w₂ w₃ w₄)
include H

theorem run (hlong : journal.maxRetainedEntries < journal.inner.timeline.length) :
    (journal.compact epochMs).run exec w = ((.ok (), { journal with file }), w₄) := by
  rw [compact, if_neg (Nat.not_le.mpr hlong)]
  refine (Prog.run_step H.opening).trans ?_
  refine (Prog.run_seq H.writing).trans ?_
  exact (Prog.run_step (exec_close ..)).trans H.installation.run

/-- An old temporary file keeps its inode, which becomes that of the journal. -/
theorem entry_of_temp {j : Nat} (hj : w.dir journal.tempPath = some j) :
    w₄.dir journal.path = some j := by
  have hopen : w₁.dir = w.dir := by
    have hdir : (exec (.openFile journal.tempPath true true) w).2.dir = w.dir :=
      dir_exec_openFile hj
    rwa [H.opening] at hdir
  have htemp : (w₂.closeFd w.fds).dir journal.tempPath = some j := by
    rw [dir_closeFd, H.written.dir, hopen, hj]
  have hpath : ((w₂.closeFd w.fds).renameEntry journal.tempPath journal.path).dir journal.path =
      some j := by
    rw [dir_renameEntry, if_pos rfl, htemp]
  have hreopen : (exec (.openFile journal.path false false)
      ((w₂.closeFd w.fds).renameEntry journal.tempPath journal.path)).2.dir =
        ((w₂.closeFd w.fds).renameEntry journal.tempPath journal.path).dir :=
    dir_exec_openFile hpath
  have hseek := dir_exec_of_file (w := w₃.closeFd journal.file) (o := .seekEnd file) rfl
  rw [H.installation.reopen] at hreopen
  rw [H.installation.seek] at hseek
  rw [show w₄.dir = w₃.dir from hseek, show w₃.dir = _ from hreopen, hpath]

end Compaction

/-- A compaction of a journal that has more entries than it retains: its file is the snapshot
afterwards. The temporary file may be a stale one, but no link to the journal file; then the file at
the path is the old one or the snapshot at every moment. -/
theorem compact_ok (h : Live w journal i bs) (epochMs : UInt64)
    (hlong : journal.maxRetainedEntries < journal.inner.timeline.length)
    (htemp : journal.tempPath ≠ journal.path → w.dir journal.tempPath ≠ some i) :
    ∃ i' file w', (journal.compact epochMs).run exec w = ((.ok (), { journal with file }), w') ∧
      Live w' { journal with file } i' (journal.snapshot epochMs) ∧
      (journal.tempPath ≠ journal.path → w'.dir journal.tempPath = none ∧
        ∀ v, (journal.compact epochMs).Visits exec w v →
          v.lookup journal.path = some bs ∨
            v.lookup journal.path = some (journal.snapshot epochMs)) := by
  obtain ⟨file, t, i', w₁, w₂, w₃, w₄, H⟩ := exists_compaction h epochMs
  have hinstall := H.installation
  refine ⟨i', file, w₄, H.run hlong, hinstall.live, fun hpt => ⟨hinstall.gone hpt, fun v hv => ?_⟩⟩
  -- until the rename the journal file is what it was
  have hbefore : ∀ {v}, SameBut w.fds t w₁ v → v.lookup journal.path = some bs := by
    intro v hs
    exact (h.beside_temp hpt (htemp hpt) H.opened hs).1.lookup
  rw [compact, if_neg (Nat.not_le.mpr hlong)] at hv
  rcases Prog.visits_step H.opening hv with rfl | hv
  · exact .inl h.lookup
  rcases Prog.visits_seq H.writing hv with hv | hv
  · exact .inl (hbefore (H.visits hv))
  rcases Prog.visits_step (exec_close ..) hv with rfl | hv
  · exact .inl (hbefore H.written)
  refine (hinstall.visits hv).imp (fun hv => ?_) id
  rw [hv, lookup_closeFd, hbefore H.written]

end Driftbrake
