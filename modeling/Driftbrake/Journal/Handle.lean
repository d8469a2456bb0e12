import Driftbrake.Journal.Replay

/-!
# A journal from its opening to its drop

`Live w journal i bs` is the state between two calls: the journal's handle is at the end of the file
at its path, an inode `i` with the bytes `bs`, and the lock file exists. Opening leads to it
(`openOrCreate_ok`), recording an entry adds its frame to `bs` (`record_ok`), and dropping the
journal leaves `bs` at the path, unless the path is its own lock path (`lookup_drop`).
-/

namespace Driftbrake

open FileSystem

variable {S : List UInt8 → Prop} {w : FileSystem Path} {path : Path} {journal : JournaledHistory}
  {i : Nat} {bs : List UInt8} {epochMs timestampMs : UInt64}

structure Live (w : FileSystem Path) (journal : JournaledHistory) (i : Nat) (bs : List UInt8) :
    Prop where
  entry : w.dir journal.path = some i
  openAt : w.OpenAt journal.file i bs.length bs
  locked : (w.dir journal.path.lockPath).isSome

theorem Live.lookup (h : Live w journal i bs) : w.lookup journal.path = some bs :=
  h.openAt.lookup h.entry

/-- What goes through the handle changes nothing but the bytes. -/
theorem Live.write {w' : FileSystem Path} {bs' : List UInt8} (h : Live w journal i bs)
    (hat : w'.OpenAt journal.file i bs'.length bs') (hsame : SameBut journal.file i w w') :
    Live w' journal i bs' where
  entry := by rw [hsame.dir, h.entry]
  openAt := hat
  locked := by rw [hsame.dir]; exact h.locked

theorem Live.closeFd {fd : Nat} (h : Live w journal i bs) (hne : journal.file ≠ fd) :
    Live (w.closeFd fd) journal i bs where
  entry := h.entry
  openAt := h.openAt.closeFd hne
  locked := h.locked

/-- Nobody holds the lock of the journal at `path`. -/
def Unlocked (w : FileSystem Path) (path : Path) : Prop := w.dir path.lockPath = none

theorem eq_lockPath_iff : path = path.lockPath ↔ path.extension = some lockExtension := by
  rw [eq_comm, Path.lockPath]
  exact Path.withExtension_eq_self_iff (by decide)

theorem ne_lockPath_iff : path ≠ path.lockPath ↔ path.extension ≠ some lockExtension :=
  not_congr eq_lockPath_iff

theorem extension_driftJournal : driftJournal.extension = some "journal".toList := rfl

theorem driftJournal_ne_lock : driftJournal.extension ≠ some lockExtension := by
  rw [extension_driftJournal]
  decide

theorem driftJournal_ne_lockPath : driftJournal ≠ driftJournal.lockPath :=
  ne_lockPath_iff.mpr driftJournal_ne_lock

theorem driftJournal_ne_compact : driftJournal.extension ≠ some compactExtension := by
  rw [extension_driftJournal]
  decide

theorem driftJournal_tempPath_ne : driftJournal.withExtension compactExtension ≠ driftJournal :=
  mt (Path.withExtension_eq_self_iff (by decide)).mp driftJournal_ne_compact

/-- The bytes at a path; a file that does not exist is created empty. -/
def contentAt (w : FileSystem Path) (path : Path) : List UInt8 := (w.lookup path).getD []

theorem contentAt_of_lookup (h : w.lookup path = some bs) : contentAt w path = bs := by
  rw [contentAt, h, Option.getD_some]

theorem contentAt_of_none (h : w.lookup path = none) : contentAt w path = [] := by
  rw [contentAt, h, Option.getD_none]

/-- There is nothing at the path of a lock that nobody holds. -/
theorem contentAt_self (h : Unlocked w path) (hself : path = path.lockPath) :
    contentAt w path = [] :=
  contentAt_of_none (lookup_eq_none_iff.mpr (hself ▸ h))

theorem contentAt_create_lock (h : Unlocked w path) :
    contentAt (w.create path.lockPath) path = contentAt w path := by
  by_cases hne : path = path.lockPath
  · have hnone : w.dir path = none := by rw [hne]; exact h
    have hnew : (w.create path.lockPath).dir path = some w.inodes := by rw [dir_create, if_pos hne]
    simp [contentAt, FileSystem.lookup, hnone, hnew, content_create]
  · rw [contentAt, contentAt, lookup_create hne]

/-! ## Opening -/

/-- What `open_or_create` leaves alone in the directory, with `i` the inode of the journal file. -/
structure OpenedJournal (w w' : FileSystem Path) (path : Path) (i : Nat) : Prop where
  dir : ∀ {q}, q ≠ path → q ≠ path.lockPath → w'.dir q = w.dir q
  /-- An entry that was no link to the journal file is none now. -/
  unlinked : ∀ {q}, q ≠ path → q ≠ path.lockPath →
    (∀ j, w.dir path = some j → w.dir q ≠ some j) → w'.dir q ≠ some i

/-- The state after the lock has been taken and the file opened. -/
theorem exists_opened (hlock : Unlocked w path) :
    ∃ i w', exec (.openFile path true false) (w.create path.lockPath) = (.ok w.fds, w') ∧
      Opened (w.create path.lockPath) w' path w.fds i (contentAt w path) := by
  obtain ⟨i, w', hopen, ho⟩ :=
    exec_openFile (w.create path.lockPath) path true false (.inl rfl)
  have hcontent := contentAt_create_lock hlock
  rw [contentAt] at hcontent
  rw [if_neg (by decide), hcontent] at ho
  exact ⟨i, w', hopen, ho⟩

theorem openedJournal_of_opened {wo w' : FileSystem Path} {fd : Nat}
    (ho : Opened (w.create path.lockPath) wo path fd i bs) (hsame : w'.dir = wo.dir) :
    OpenedJournal w w' path i := by
  constructor
  · intro q hq hql
    rw [hsame, ho.dir hq, dir_create, if_neg hql]
  · intro q hq hql hunlinked
    rw [hsame]
    refine ho.unlinked hq fun j hj => ?_
    rw [dir_create] at hj
    rw [dir_create, if_neg hql]
    split at hj
    · cases hj
      exact dir_ne_inodes
    · exact hunlinked j hj

theorem openOrCreate_ok (max : Nat) {inner : ReconcileHistory} {bs' : List UInt8}
    (hlock : Unlocked w path)
    (hrec : ∀ file i, Effect S file i 0 (contentAt w path) (recover file epochMs) (.ok inner)
      bs'.length bs') :
    ∃ i w', (openOrCreate path max epochMs).run exec w = (.ok ⟨inner, w.fds, path, max⟩, w') ∧
      Live w' ⟨inner, w.fds, path, max⟩ i bs' ∧ OpenedJournal w w' path i ∧
      ∀ v, (openOrCreate path max epochMs).Visits exec w v →
        v.lookup path = w.lookup path ∨ ∃ c, v.lookup path = some c ∧ S c := by
  have hcreate := exec_createNew hlock
  obtain ⟨i, wo, hopen, ho⟩ := exists_opened hlock
  obtain ⟨⟨w', hrun, hat, hsame⟩, hvis⟩ := hrec w.fds i wo ho.openAt
  have hentry : w'.dir path = some i := by rw [hsame.dir, ho.entry]
  refine ⟨i, w', ?_, ⟨hentry, hat, ?_⟩, openedJournal_of_opened ho hsame.dir, ?_⟩
  · refine (Prog.run_step hcreate).trans ?_
    refine (Prog.run_step hopen).trans ?_
    exact Prog.run_seq hrun
  · by_cases hne : path.lockPath = path
    · rw [hne, hentry]
      rfl
    · rw [hsame.dir, ho.dir hne, dir_create, if_pos rfl]
      rfl
  · intro v hv
    have hcontent : S (contentAt w path) := ho.openAt.content ▸ (hvis wo (.self ..)).2
    have hlater : ∀ {v}, (recover w.fds epochMs).run.Visits exec wo v →
        v.lookup path = w.lookup path ∨ ∃ c, v.lookup path = some c ∧ S c := by
      intro v hv
      obtain ⟨hs, hS⟩ := hvis v hv
      exact .inr ⟨_, by rw [FileSystem.lookup, hs.dir, ho.entry]; rfl, hS⟩
    rcases Prog.visits_step hcreate hv with rfl | hv
    · exact .inl rfl
    rcases Prog.visits_step hopen hv with rfl | hv
    · by_cases hne : path = path.lockPath
      · refine .inr ⟨contentAt w path, ?_, hcontent⟩
        rw [← contentAt_create_lock hlock, contentAt, FileSystem.lookup, dir_create, if_pos hne]
        rfl
      · exact .inl (lookup_create hne)
    rcases Prog.visits_seq hrun hv with hv | hv
    · exact hlater hv
    · cases (hv : v = w')
      exact hlater (.of_run hrun)

/-- An `open_or_create` that fails leaves the bytes alone, closes the file and releases the lock. -/
theorem openOrCreate_error (max : Nat) {e : JournalError} (hlock : Unlocked w path)
    (hne : path ≠ path.lockPath)
    (hrec : ∀ file i, ∃ pos, Effect S file i 0 (contentAt w path) (recover file epochMs) (.error e)
      pos (contentAt w path)) :
    ∃ w', (openOrCreate path max epochMs).run exec w = (.error e, w') ∧
      w'.lookup path = some (contentAt w path) ∧ Unlocked w' path ∧ w'.handles w.fds = none := by
  have hcreate := exec_createNew hlock
  obtain ⟨i, wo, hopen, ho⟩ := exists_opened hlock
  obtain ⟨pos, heff⟩ := hrec w.fds i
  obtain ⟨⟨wr, hrun, hat, hsame⟩, _⟩ := heff wo ho.openAt
  have hlocked : (wr.closeFd w.fds).dir path.lockPath = some w.inodes := by
    rw [dir_closeFd, hsame.dir, ho.dir hne.symm, dir_create, if_pos rfl]
  refine ⟨(wr.closeFd w.fds).unlink path.lockPath, ?_, ?_, ?_, ?_⟩
  · refine (Prog.run_step hcreate).trans ?_
    refine (Prog.run_step hopen).trans ?_
    refine (Prog.run_seq hrun).trans ?_
    refine (Prog.run_step (exec_close ..)).trans ?_
    exact Prog.run_step (exec_removeFile hlocked)
  · rw [lookup_unlink hne, lookup_closeFd]
    exact hat.lookup (by rw [hsame.dir, ho.entry])
  · rw [Unlocked, dir_unlink, if_pos rfl]
  · rw [handles_unlink]
    exact handles_closeFd _ _

/-! ## Recording -/

theorem writeFrame_effect {tag : UInt8} {payload : List UInt8} {file : Nat} (hS : S bs)
    (hS' : S (bs ++ metaBytes tag payload.length (crc32 payload)))
    (hS'' : S (bs ++ (metaBytes tag payload.length (crc32 payload) ++ payload))) :
    Effect S file i bs.length bs (writeFrame file tag payload) (.ok ())
      (bs ++ (metaBytes tag payload.length (crc32 payload) ++ payload)).length
      (bs ++ (metaBytes tag payload.length (crc32 payload) ++ payload)) := by
  rw [← List.append_assoc] at hS'' ⊢
  exact (Effect.attempt_ok (acts_writeAll _) hS hS').bind
    (.attempt_ok (acts_writeAll _) hS' hS'')

theorem record_eq_commit (journal : JournaledHistory) (timestampMs : UInt64) (e : HistoryEntry) :
    journal.record timestampMs e =
      journal.commit e.tag (e.encode timestampMs) (journal.inner.apply e) := by
  cases e <;> rfl

/-- `c` is `bs` followed by a part of `frame`. -/
def PartWritten (bs frame c : List UInt8) : Prop := ∃ part, part <+: frame ∧ c = bs ++ part

theorem writeRecord_effect (e : HistoryEntry) (timestampMs : UInt64) {file : Nat} :
    Effect (PartWritten bs (Frame.ofEntry e timestampMs).bytes) file i bs.length bs
      (writeRecord file e.tag (e.encode timestampMs)) (.ok ())
      (bs ++ (Frame.ofEntry e timestampMs).bytes).length
      (bs ++ (Frame.ofEntry e timestampMs).bytes) := by
  have hS : PartWritten bs (Frame.ofEntry e timestampMs).bytes bs :=
    ⟨[], List.nil_prefix, (List.append_nil bs).symm⟩
  have hS' : PartWritten bs (Frame.ofEntry e timestampMs).bytes (bs ++ metaBytes e.tag
      (e.encode timestampMs).length (crc32 (e.encode timestampMs))) :=
    ⟨_, List.prefix_append _ _, rfl⟩
  have hS'' : PartWritten bs (Frame.ofEntry e timestampMs).bytes
      (bs ++ (Frame.ofEntry e timestampMs).bytes) := ⟨_, List.prefix_refl _, rfl⟩
  exact (writeFrame_effect hS hS' hS'').bind (.attempt_ok acts_flush hS'' hS'')

/-- A call adds the frame of its entry to the file and its entry to the memory. Between its steps
the file holds what it held before and a part of the frame. -/
theorem record_ok (h : Live w journal i bs) (e : HistoryEntry) (timestampMs : UInt64) :
    ∃ w', (journal.record timestampMs e).run exec w =
        ((.ok (), { journal with inner := journal.inner.apply e }), w') ∧
      Live w' { journal with inner := journal.inner.apply e } i
        (bs ++ (Frame.ofEntry e timestampMs).bytes) ∧
      w'.dir = w.dir ∧
      ∀ v, (journal.record timestampMs e).Visits exec w v → v.dir = w.dir ∧
        PartWritten bs (Frame.ofEntry e timestampMs).bytes (v.content i) := by
  obtain ⟨⟨w', hrun, hat, hsame⟩, hvis⟩ := writeRecord_effect e timestampMs w h.openAt
  have hdone : (journal.record timestampMs e).run exec w =
      ((.ok (), { journal with inner := journal.inner.apply e }), w') := by
    rw [record_eq_commit]
    exact Prog.run_seq hrun
  have hlive := h.write hat hsame
  refine ⟨w', hdone, ⟨hlive.entry, hat, hlive.locked⟩, hsame.dir, fun v hv => ?_⟩
  have hv : (writeRecord journal.file e.tag (e.encode timestampMs)).run.Visits exec w v := by
    rw [record_eq_commit] at hv
    refine (Prog.visits_seq hrun hv).elim id fun hv => ?_
    cases (hv : v = w')
    exact .of_run hrun
  exact ⟨(hvis v hv).1.dir, (hvis v hv).2⟩

/-- The frames of some calls. -/
def framesOf (calls : List JournaledHistory.Call) : List Frame :=
  calls.map fun call => .ofEntry call.entry call.timestampMs

theorem entries_framesOf (calls : List JournaledHistory.Call) :
    entries (framesOf calls) = calls.map (·.entry.persisted) := by
  simp [entries, framesOf]

theorem image_append (hd : Header) (fs gs : List Frame) :
    image hd (fs ++ gs) = image hd fs ++ frameCode.encode gs := by
  rw [image, FrameCode.encode_append, ← List.append_assoc]
  rfl

theorem image_append_frame (hd : Header) (fs : List Frame) (f : Frame) :
    image hd (fs ++ [f]) = image hd fs ++ f.bytes := by
  rw [image_append, FrameCode.encode_cons, FrameCode.encode_nil, List.append_nil]
  rfl

theorem recordAll_ok {hd : Header} {fs : List Frame} (h : Live w journal i (image hd fs))
    (calls : List JournaledHistory.Call) :
    let journal' := { journal with
      inner := (calls.map (·.entry)).foldl ReconcileHistory.apply journal.inner }
    ∃ w', (journal.recordAll calls).run exec w = ((.ok (), journal'), w') ∧
      Live w' journal' i (image hd (fs ++ framesOf calls)) ∧ w'.dir = w.dir := by
  induction calls generalizing w journal fs with
  | nil => exact ⟨w, rfl, (List.append_nil fs).symm ▸ h, rfl⟩
  | cons call calls ih =>
    obtain ⟨w', hrun, hlive, hdir, _⟩ := record_ok h call.entry call.timestampMs
    rw [← image_append_frame] at hlive
    obtain ⟨w'', hrun', hlive', hdir'⟩ := ih hlive
    rw [List.append_assoc] at hlive'
    refine ⟨w'', ?_, hlive', hdir'.trans hdir⟩
    exact (Prog.run_seq hrun).trans hrun'

/-! ## Dropping -/

theorem drop_run_of_locked (h : (w.dir journal.path.lockPath).isSome) :
    journal.drop.run exec w =
      ((), (w.closeFd journal.file).unlink journal.path.lockPath) := by
  obtain ⟨j, hj⟩ := Option.isSome_iff_exists.mp h
  have hj : (w.closeFd journal.file).dir journal.path.lockPath = some j := hj
  exact (Prog.run_step (exec_close ..)).trans (Prog.run_step (exec_removeFile hj))

theorem drop_run (h : Live w journal i bs) :
    journal.drop.run exec w =
      ((), (w.closeFd journal.file).unlink journal.path.lockPath) :=
  drop_run_of_locked h.locked

theorem unlocked_drop (w : FileSystem Path) (path : Path) (fd : Nat) :
    Unlocked ((w.closeFd fd).unlink path.lockPath) path := by
  rw [Unlocked, dir_unlink, if_pos rfl]

/-- The file stays where it is, unless its path is that of the lock. -/
theorem lookup_drop (h : w.lookup journal.path = some bs)
    (hne : journal.path ≠ journal.path.lockPath) :
    ((w.closeFd journal.file).unlink journal.path.lockPath).lookup journal.path = some bs := by
  rw [lookup_unlink hne, lookup_closeFd, h]

theorem drop_visits (h : Live w journal i bs) (hne : journal.path ≠ journal.path.lockPath)
    {v : FileSystem Path} (hv : journal.drop.Visits exec w v) :
    v.lookup journal.path = some bs := by
  obtain ⟨j, hj⟩ := Option.isSome_iff_exists.mp h.locked
  have hj : (w.closeFd journal.file).dir journal.path.lockPath = some j := hj
  rcases Prog.visits_step (exec_close ..) hv with rfl | hv
  · exact h.lookup
  rcases Prog.visits_step (exec_removeFile hj) hv with rfl | hv
  · rw [lookup_closeFd, h.lookup]
  · cases (hv : v = _)
    exact lookup_drop h.lookup hne

/-- A journal at its own lock path removes itself. -/
theorem lookup_drop_self (w : FileSystem Path) (path : Path) (fd : Nat)
    (hp : path = path.lockPath) :
    ((w.closeFd fd).unlink path.lockPath).lookup path = none := by
  rw [FileSystem.lookup, dir_unlink, if_pos hp]
  rfl

end Driftbrake
