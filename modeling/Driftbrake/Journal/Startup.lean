import Driftbrake.Journal.OnDisk
import Driftbrake.Lib.Crash

/-!
# A process that dies while it opens a journal

`open_or_create` changes the file in two places: it writes the header of a new journal, and it cuts
off what follows the last frame. The cut is one operation, but of the header a part can have been
written when the process dies, and such a file is refused by the next opening
(`startup_resumes_iff`).
-/

namespace Driftbrake

open FileSystem

variable {w w' v : FileSystem Path} {path : Path} {max : Nat} {epochMs : UInt64}
  {journal : JournaledHistory} {inner : ReconcileHistory} {hd : Header} {fs : List Frame}
  {part tail : List UInt8}

/-- The next process, which removes the stale lock, opens the journal with the history `inner`. -/
def Resumes (v : FileSystem Path) (path : Path) (inner : ReconcileHistory) : Prop :=
  ∀ max epochMs, ∃ journal w,
    (openOrCreate path max epochMs).run exec (v.unlink path.lockPath) = (.ok journal, w) ∧
    journal.inner = inner

theorem resumes_of_nil (h : contentAt (v.unlink path.lockPath) path = []) :
    Resumes v path .new := by
  intro max epochMs
  obtain ⟨_, w, hrun, _⟩ := openOrCreate_new max epochMs (unlocked_unlock v path) h
  exact ⟨_, w, hrun, rfl⟩

theorem resumes_of_image (hne : path ≠ path.lockPath)
    (h : contentAt v path = image hd fs ++ tail) (hstop : Frame.next tail = none) :
    Resumes v path (.ofEntries (entries fs)) := by
  intro max epochMs
  rw [← contentAt_unlock hne, image, List.append_assoc] at h
  obtain ⟨_, w, hrun, _⟩ := openOrCreate_image max epochMs (unlocked_unlock v path) h ⟨rfl, hstop⟩
  exact ⟨_, w, hrun, rfl⟩

theorem resumes_of_lookup (hne : path ≠ path.lockPath) (h : v.lookup path = some (image hd fs)) :
    Resumes v path (.ofEntries (entries fs)) := by
  rw [← List.append_nil (image hd fs)] at h
  exact resumes_of_image hne (contentAt_of_lookup h) frameCode.next_nil

/-- A journal at its own lock path is removed with the stale lock. -/
theorem resumes_of_self (hself : path = path.lockPath) : Resumes v path .new :=
  resumes_of_nil (contentAt_self (unlocked_unlock v path) hself)

/-! ## Deaths -/

/-- A process that has begun no write leaves a file that is opened as it would have been. -/
theorem resumes_of_visits (hopen : (openOrCreate path max epochMs).run exec w = (.ok journal, w'))
    (hv : (openOrCreate path max epochMs).Visits exec w v) : Resumes v path journal.inner := by
  have hlock := unlocked_of_opened hopen
  by_cases hne : path = path.lockPath
  · obtain ⟨_, w', hrun, _⟩ := openOrCreate_new max epochMs hlock (contentAt_self hlock hne)
    cases hopen.symm.trans hrun
    exact resumes_of_self hne
  · have hsame : v.lookup path = w.lookup path → contentAt v path = contentAt w path := by
      intro h
      rw [contentAt, h, contentAt]
    rcases content_of_opened hopen with ⟨hnil, hinner⟩ | ⟨hd, fs, tail, himage, hstop, hinner⟩
    · rw [hinner]
      obtain ⟨_, _, _, _, _, hvis⟩ := openOrCreate_new max epochMs hlock hnil
      rcases hvis v hv with h | ⟨_, h, rfl | rfl⟩
      · exact resumes_of_nil ((contentAt_unlock hne).trans ((hsame h).trans hnil))
      · exact resumes_of_nil ((contentAt_unlock hne).trans (contentAt_of_lookup h))
      · exact resumes_of_lookup hne h
    · rw [hinner]
      have hcontent : contentAt w path = hd.bytes ++ (frameCode.encode fs ++ tail) := by
        rw [himage, image, List.append_assoc]
      obtain ⟨_, _, _, _, _, hvis⟩ :=
        openOrCreate_image max epochMs hlock hcontent ⟨rfl, hstop⟩
      rcases hvis v hv with h | ⟨_, h, rfl | rfl⟩
      · exact resumes_of_image hne ((hsame h).trans himage) hstop
      · have hv := (contentAt_of_lookup h).trans (hcontent.symm.trans himage)
        exact resumes_of_image hne hv hstop
      · exact resumes_of_lookup hne h

theorem load_writesNothing (file : Nat) {fileLen : Nat} (h : fileLen ≠ 0) (epochMs : UInt64) :
    (load file fileLen epochMs).run.Uses FsOp.WritesNothing (Prog.OnError fun _ => True) := by
  rw [load, if_neg h]
  refine (Prog.uses_attempt trivial fun _ => trivial).bindE fun _ => ?_
  refine (Prog.uses_attempt trivial fun _ => trivial).bindE fun head => ?_
  dsimp only
  split
  · exact Prog.uses_throwE trivial
  split
  · exact Prog.uses_throwE trivial
  · exact replay_uses (fun _ => trivial) trivial (fun _ => trivial) (fun _ => trivial)
      (fun _ => trivial) _ _

theorem io_writesNothing {α β : Type} (o : FsOp Path (Except IoError α)) (ho : o.WritesNothing)
    (b : β) : ((io o : Io α) >>= fun _ => pure b).run.Uses FsOp.WritesNothing
      (Prog.OnError fun _ => True) :=
  (Prog.uses_attempt ho fun _ => trivial).bindE fun _ => Prog.uses_pureE b

/-- Of the header of a new journal a part can have been written. -/
theorem load_new_dies {file i : Nat} (h : w.OpenAt file i 0 []) (hpart : part ≠ [])
    (hdies : (load file 0 epochMs).run.Dies w part v) :
    part <+: header epochMs ∧ part ≠ header epochMs ∧ v.content i = part ∧ v.dir = w.dir := by
  have hwrite : Effect (ε := JournalError) (fun _ => True) file i 0 []
      (io (.writeAll file (header epochMs))) (.ok ()) (header epochMs).length (header epochMs) :=
    .attempt_ok (acts_writeAll_start _) trivial trivial
  obtain ⟨⟨w₁, hrun, _⟩, _⟩ := hwrite w h
  rw [load, if_pos rfl] at hdies
  rcases Prog.dies_bindE hrun hdies with hdies | hdies
  · obtain ⟨hpre, hne, _, rfl⟩ := (Prog.dies_attempt hpart).mp hdies
    obtain ⟨v, hexec, hat, hsame⟩ := acts_writeAll_start part w h
    rw [hexec]
    exact ⟨hpre, hne, hat.content, hsame.dir⟩
  · exact absurd ((io_writesNothing (.flush file) trivial _).dies_nil hdies) hpart

theorem recover_dies {file i : Nat} {bs : List UInt8} (h : w.OpenAt file i 0 bs)
    (hpart : part ≠ []) (hdies : (recover file epochMs).run.Dies w part v) :
    bs = [] ∧ part <+: header epochMs ∧ part ≠ header epochMs ∧ v.content i = part ∧
      v.dir = w.dir := by
  have hlen : Effect (P := Path) (ε := JournalError) (fun _ => True) file i 0 bs (io (.len file))
      (.ok bs.length) 0 bs := .attempt_ok acts_len trivial trivial
  obtain ⟨⟨w₁, hrun, hat, hsame⟩, _⟩ := hlen w h
  rcases Prog.dies_bindE hrun hdies with hdies | hdies
  · cases (Prog.dies_attempt hpart).mp hdies
  by_cases hbs : bs = []
  · subst hbs
    obtain ⟨⟨w₂, hload, _⟩, _⟩ := load_new (S := fun _ => True) epochMs trivial trivial w₁ hat
    rcases Prog.dies_bindE hload hdies with hdies | hdies
    · obtain ⟨hpre, hne, hcontent, hdir⟩ := load_new_dies hat hpart hdies
      exact ⟨rfl, hpre, hne, hcontent, hdir.trans hsame.dir⟩
    · exact absurd ((io_writesNothing (.seekEnd file) trivial _).dies_nil hdies) hpart
  · have hpos : bs.length ≠ 0 := mt List.length_eq_zero_iff.mp hbs
    have huses := (load_writesNothing file hpos epochMs).bindE fun inner =>
      io_writesNothing (.seekEnd file) trivial inner
    exact absurd (huses.dies_nil hdies) hpart

/-- A process that dies inside a write leaves a part of the header at the path. -/
theorem openOrCreate_dies (hlock : Unlocked w path) (hpart : part ≠ [])
    (hdies : (openOrCreate path max epochMs).Dies w part v) :
    v.lookup path = some part ∧ part <+: header epochMs ∧ part ≠ header epochMs := by
  obtain ⟨i, wo, hopen, ho⟩ := exists_opened hlock
  have hdies := Prog.dies_step (exec_createNew hlock) trivial hpart hdies
  have hdies := Prog.dies_step hopen trivial hpart hdies
  rcases Prog.dies_seq rfl hdies with hdies | hdies
  · obtain ⟨_, hpre, hne, hcontent, hdir⟩ := recover_dies ho.openAt hpart hdies
    refine ⟨?_, hpre, hne⟩
    rw [FileSystem.lookup, hdir, ho.entry, Option.map_some, hcontent]
  · generalize (recover w.fds epochMs).run.run exec wo = r at hdies
    rcases r with ⟨e | inner, t⟩
    · have hclose : ∀ (r : Except JournalError JournaledHistory),
          (do
            Prog.perform (.close w.fds)
            let _ ← Prog.perform (.removeFile path.lockPath)
            pure r : Prog (FsOp Path) _).Uses FsOp.WritesNothing fun _ => True :=
        fun _ => ⟨trivial, fun _ => ⟨trivial, fun _ => trivial⟩⟩
      exact absurd ((hclose _).dies_nil hdies) hpart
    · exact absurd hdies.1 hpart

/-- A part of a header is refused. -/
theorem not_resumes_of_part (hne : path ≠ path.lockPath) (hsome : v.lookup path = some part)
    (hpart : part ≠ []) (hlen : part.length < 16) : ¬Resumes v path inner := by
  intro H
  obtain ⟨journal, w, hrun, _⟩ := H 0 0
  have herr : headerError part = some (.io .unexpectedEof) := if_pos hlen
  obtain ⟨_, hrun', _⟩ := openOrCreate_refuses 0 0 (unlocked_unlock v path)
    ((contentAt_unlock hne).trans (contentAt_of_lookup hsome)) hpart herr
  cases congrArg Prod.fst (hrun.symm.trans hrun')

/-- **`open_or_create` can be started again** after a death, and yields what it would have yielded
without it, if and only if the process has not died inside the write of a header, or the journal
takes its own file for the lock file, which the next process removes. -/
theorem startup_resumes_iff
    (hopen : (openOrCreate path max epochMs).run exec w = (.ok journal, w'))
    (hdies : (openOrCreate path max epochMs).Dies w part v) :
    Resumes v path journal.inner ↔ part = [] ∨ path.extension = some lockExtension := by
  by_cases hpart : part = []
  · subst hpart
    exact iff_of_true (resumes_of_visits hopen (Prog.dies_nil.mp hdies)) (.inl rfl)
  · have hlock := unlocked_of_opened hopen
    obtain ⟨hsome, hpre, hne⟩ := openOrCreate_dies hlock hpart hdies
    rw [or_iff_right hpart]
    by_cases hp : path.extension = some lockExtension
    · have hself := eq_lockPath_iff.mpr hp
      obtain ⟨_, w', hrun, _⟩ := openOrCreate_new max epochMs hlock (contentAt_self hlock hself)
      cases hopen.symm.trans hrun
      exact iff_of_true (resumes_of_self hself) hp
    · have hlen : part.length < 16 := by
        have hle := hpre.length_le
        have hneq : part.length ≠ (header epochMs).length := fun h => hne (hpre.eq_of_length h)
        have hlength : (header epochMs).length = 16 := (Header.new epochMs).length_bytes
        omega
      exact iff_of_false (not_resumes_of_part (ne_lockPath_iff.mpr hp) hsome hpart hlen) hp

/-- A process that dies when it has cut off the torn bytes of a journal. -/
theorem startup_resumes_after_cut : ∃ journal w',
    (openOrCreate driftJournal 100 0).run exec (.ofFile driftJournal (header 7 ++ [0, 0])) =
      (.ok journal, w') ∧
    (openOrCreate driftJournal 100 0).Dies (.ofFile driftJournal (header 7 ++ [0, 0])) [] w' ∧
    Resumes w' driftJournal journal.inner := by
  have hlock : Unlocked (.ofFile driftJournal (header 7 ++ [0, 0])) driftJournal := by
    rw [Unlocked]
    decide
  have hcut : frameCode.Decodes [0, 0] [] [0, 0] := ⟨rfl, show Frame.next [0, 0] = none by decide⟩
  have hcontent : contentAt (.ofFile driftJournal (header 7 ++ [0, 0])) driftJournal =
      (Header.new 7).bytes ++ [0, 0] := rfl
  obtain ⟨_, w', hrun, _⟩ := openOrCreate_image 100 0 hlock hcontent hcut
  have hdies := Prog.dies_nil.mpr (Prog.Visits.of_run hrun)
  exact ⟨_, w', hrun, hdies, (startup_resumes_iff hrun hdies).mpr (.inl rfl)⟩

/-- A process that dies when it has written one byte of the header of a new journal. -/
theorem not_startup_resumes_one_byte : ∃ journal w' v,
    (openOrCreate driftJournal 100 0).run exec .empty = (.ok journal, w') ∧
    (openOrCreate driftJournal 100 0).Dies .empty [0x44] v ∧
    ¬Resumes v driftJournal journal.inner := by
  have hbyte : [0x44] <+: header 0 := ⟨_, rfl⟩
  have hdies : (openOrCreate driftJournal 100 0).Dies .empty [0x44] _ :=
    .inr (.inr (.inr (.inr (.inr (.inr (.inr (.inl ⟨hbyte, by decide, by decide, rfl⟩)))))))
  refine ⟨_, _, _, rfl, hdies, ?_⟩
  exact not_resumes_of_part driftJournal_ne_lockPath rfl (by decide) (by decide)

end Driftbrake
