import Driftbrake.Journal.OnDisk
import Driftbrake.Journal.Restart

/-!
# Runs and their ledger

A `Ledger` is what a run should leave: the entries acknowledged, those in memory and those on disk,
as they were recorded. `LedgerRun` is a run of the journal beside its ledger, over any number of
calls, compactions, closes and openings, and `LedgerRun.inv` says that the file holds the ledger's
entries as the format keeps them. What has been through the file once is not changed by it again
(`map_persisted_persisted`), so it does not matter how often an entry was read back and rewritten.
-/

namespace Driftbrake

open FileSystem

open JournaledHistory (Call)

/-! ## Entries that have been through the file -/

/-- What has been through the file once is not changed by it again. -/
theorem HistoryEntry.recordable_persisted (e : HistoryEntry) : e.persisted.Recordable := by
  cases e with
  | confirmedPair predicted realized => trivial
  | revertedTx event =>
    intro s hs
    have hs : event.persistedReason = some s := hs
    rw [RevertEvent.persistedReason] at hs
    split at hs
    · rename_i hpos
      have hbytes := utf8_of_fromUtf8 hs
      have hlen : (utf8 s).length = event.reasonLen := by rw [hbytes, event.length_reason]
      have hlt := event.reasonLen_lt
      refine ⟨?_, by omega⟩
      rintro rfl
      have hnil : (utf8 "").length = 0 := rfl
      omega
    · cases hs

theorem map_persisted_persisted (es : List HistoryEntry) :
    (es.map (·.persisted)).map (·.persisted) = es.map (·.persisted) := by
  refine HistoryEntry.map_persisted_of_recordable fun e he => ?_
  obtain ⟨e, _, rfl⟩ := List.mem_map.mp he
  exact e.recordable_persisted

/-! ## Ledgers -/

/-- The entries of a run, as they were recorded: all that were acknowledged, and those that should
be in memory and on disk. -/
structure Ledger where
  acknowledged : List HistoryEntry
  mem : List HistoryEntry
  disk : List HistoryEntry

namespace Ledger

def opened (l : Ledger) : Ledger := { l with mem := l.disk }

def recorded (l : Ledger) (e : HistoryEntry) : Ledger :=
  ⟨l.acknowledged ++ [e], l.mem ++ [e], l.disk ++ [e]⟩

def compacted (l : Ledger) (max : Nat) : Ledger :=
  if l.mem.length ≤ max then l else { l with disk := l.mem.rtake max }

end Ledger

/-- The states between the steps of a run that keeps `max` entries, with the ledger they should
match. `none` is a journal that is closed. -/
inductive LedgerRun (path : Path) (max : Nat) :
    FileSystem Path → Option JournaledHistory → Ledger → Prop
  | start : w.lookup path = none → Unlocked w path → LedgerRun path max w none ⟨[], [], []⟩
  | opened : LedgerRun path max w none l →
    (openOrCreate path max epochMs).run exec w = (.ok journal, w') →
    LedgerRun path max w' (some journal) l.opened
  | recorded (call : Call) : LedgerRun path max w (some journal) l →
    (journal.record call.timestampMs call.entry).run exec w = ((.ok (), journal'), w') →
    LedgerRun path max w' (some journal') (l.recorded call.entry)
  | compacted : LedgerRun path max w (some journal) l →
    (journal.compact epochMs).run exec w = ((.ok (), journal'), w') →
    LedgerRun path max w' (some journal') (l.compacted max)
  | closed : LedgerRun path max w (some journal) l → journal.drop.run exec w = ((), w') →
    LedgerRun path max w' none l

variable {path : Path} {max i : Nat} {w w' : FileSystem Path} {journal : JournaledHistory}
  {l : Ledger} {hd : Header} {fs : List Frame} {m : List HistoryEntry}

/-- Memory and disk have the last entries that were acknowledged, at least as many as are kept. -/
theorem LedgerRun.covers {live : Option JournaledHistory} (H : LedgerRun path max w live l) :
    Covers max l.acknowledged l.mem ∧ Covers max l.acknowledged l.disk := by
  induction H with
  | start => exact ⟨.self [], .self []⟩
  | opened _ _ ih => exact ⟨ih.2, ih.2⟩
  | recorded call _ _ ih => exact ⟨ih.1.append_singleton _, ih.2.append_singleton _⟩
  | compacted _ _ ih =>
    rw [Ledger.compacted]
    split
    · exact ih
    · exact ⟨ih.1, ih.1.rtake⟩
  | closed _ _ ih => exact ih

/-- The temporary file of a compaction is not a link to the journal. -/
def TempFree (w : FileSystem Path) (path : Path) : Prop :=
  path.withExtension compactExtension ≠ path → TempUnlinked w path

/-- A closed journal. -/
structure LedgerOnDisk (path : Path) (w : FileSystem Path) (l : Ledger) : Prop where
  unlocked : Unlocked w path
  temp : TempFree w path
  content : (w.lookup path = none ∧ (path.extension ≠ some lockExtension → l.disk = [])) ∨
    ∃ hd fs, w.lookup path = some (image hd fs) ∧
      (path.extension ≠ some lockExtension → entries fs = l.disk.map (·.persisted))

/-- An open journal, whose memory holds `m`. -/
structure LedgerInUse (path : Path) (max : Nat) (w : FileSystem Path) (journal : JournaledHistory)
    (l : Ledger) (i : Nat) (hd : Header) (fs : List Frame) (m : List HistoryEntry) : Prop where
  path_eq : journal.path = path
  max_eq : journal.maxRetainedEntries = max
  live : Live w journal i (image hd fs)
  temp : TempFree w path
  memory : journal.inner = .ofEntries m
  mem : path.extension ≠ some lockExtension → m.map (·.persisted) = l.mem.map (·.persisted)
  disk : path.extension ≠ some lockExtension → entries fs = l.disk.map (·.persisted)

theorem LedgerOnDisk.opened (h : LedgerOnDisk path w l) (max : Nat) (epochMs : UInt64) :
    ∃ journal w' i hd fs m, (openOrCreate path max epochMs).run exec w = (.ok journal, w') ∧
      LedgerInUse path max w' journal l.opened i hd fs m := by
  have htl := compactPath_ne_lockPath path
  have htemp : ∀ {i w'}, OpenedJournal w w' path i → w'.dir path = some i → TempFree w' path :=
    fun ho hentry hpt => .of_entry hentry (ho.unlinked hpt htl (h.temp hpt))
  rcases h.content with ⟨hnone, hdisk⟩ | ⟨hd, fs, hsome, hdisk⟩
  · obtain ⟨i, w', hrun, hlive, ho, _⟩ :=
      openOrCreate_new max epochMs h.unlocked (contentAt_of_none hnone)
    have hnil : path.extension ≠ some lockExtension →
        ([] : List HistoryEntry) = l.disk.map (·.persisted) := by
      intro hpath
      rw [hdisk hpath, List.map_nil]
    exact ⟨_, w', i, .new epochMs, [], [], hrun, rfl, rfl, hlive, htemp ho hlive.entry, rfl, hnil,
      hnil⟩
  · have hcontent : contentAt w path = hd.bytes ++ frameCode.encode fs := contentAt_of_lookup hsome
    obtain ⟨i, w', hrun, hlive, ho, _⟩ := openOrCreate_image max epochMs h.unlocked hcontent
      (FrameCode.decodes_encode fs)
    refine ⟨_, w', i, hd, fs, entries fs, hrun, rfl, rfl, hlive, htemp ho hlive.entry, rfl,
      fun hpath => ?_, hdisk⟩
    rw [hdisk hpath]
    exact map_persisted_persisted l.disk

theorem LedgerInUse.recorded (h : LedgerInUse path max w journal l i hd fs m) (call : Call) :
    ∃ journal' w',
      (journal.record call.timestampMs call.entry).run exec w = ((.ok (), journal'), w') ∧
      LedgerInUse path max w' journal' (l.recorded call.entry) i hd (fs ++ framesOf [call])
        (m ++ [call.entry]) := by
  obtain ⟨w', hrun, hlive, hdir, _⟩ := record_ok h.live call.entry call.timestampMs
  refine ⟨_, w', hrun, h.path_eq, h.max_eq, ?_, ?_, ?_, fun hpath => ?_, fun hpath => ?_⟩
  · rw [framesOf, List.map_singleton, image_append_frame]
    exact hlive
  · rw [TempFree, TempUnlinked, hdir]
    exact h.temp
  · rw [h.memory, ReconcileHistory.ofEntries_append_singleton]
  · rw [Ledger.recorded, List.map_append, List.map_append, h.mem hpath]
  · rw [entries_append, entries_framesOf, h.disk hpath, Ledger.recorded, List.map_append]
    rfl

theorem Ledger.compacted_mem (l : Ledger) (max : Nat) : (l.compacted max).mem = l.mem := by
  rw [Ledger.compacted]
  split <;> rfl

theorem LedgerInUse.compacted (h : LedgerInUse path max w journal l i hd fs m)
    (epochMs : UInt64) :
    ∃ journal' w' i' hd' fs', (journal.compact epochMs).run exec w = ((.ok (), journal'), w') ∧
      LedgerInUse path max w' journal' (l.compacted max) i' hd' fs' m := by
  obtain ⟨rfl, rfl, hlive, htemp, hmemory, hmem, hdisk⟩ := h
  have htimeline : journal.inner.timeline = m := by
    rw [hmemory, ReconcileHistory.timeline_ofEntries]
  have hlen : journal.path.extension ≠ some lockExtension → l.mem.length = m.length := by
    intro hpath
    simpa using (congrArg List.length (hmem hpath)).symm
  by_cases hshort : m.length ≤ journal.maxRetainedEntries
  · refine ⟨journal, w, i, hd, fs, ?_, rfl, rfl, hlive, htemp, hmemory, ?_, fun hpath => ?_⟩
    · rw [compact_short (by rw [htimeline]; exact hshort)]
      rfl
    · rw [Ledger.compacted_mem]
      exact hmem
    · rw [Ledger.compacted, if_pos (hlen hpath ▸ hshort)]
      exact hdisk hpath
  · have hfree : journal.tempPath ≠ journal.path → w.dir journal.tempPath ≠ some i := fun hpt =>
      htemp hpt i hlive.entry
    obtain ⟨i', file, w', hrun, hlive', hgone⟩ :=
      compact_ok hlive epochMs (by rw [htimeline]; omega) hfree
    refine ⟨_, w', i', .new epochMs, snapshotFrames journal.retained, hrun, rfl, rfl, hlive',
      fun hpt j _ hj => ?_, hmemory, ?_, fun hpath => ?_⟩
    · cases hj.symm.trans (hgone hpt).1
    · rw [Ledger.compacted_mem]
      exact hmem
    · rw [entries_snapshotFrames, JournaledHistory.retained, htimeline, Ledger.compacted,
        if_neg (hlen hpath ▸ hshort), map_rtake, map_rtake, hmem hpath]

theorem LedgerInUse.closed (h : LedgerInUse path max w journal l i hd fs m) :
    ∃ w', journal.drop.run exec w = ((), w') ∧ LedgerOnDisk path w' l := by
  obtain ⟨rfl, _, hlive, htemp, _, _, hdisk⟩ := h
  have htl := compactPath_ne_lockPath journal.path
  refine ⟨_, drop_run hlive, unlocked_drop .., fun hpt j hj => ?_, ?_⟩
  · rw [dir_unlink] at hj ⊢
    rw [if_neg htl]
    split at hj
    · cases hj
    · exact htemp hpt j hj
  · by_cases hne : journal.path = journal.path.lockPath
    · exact .inl ⟨lookup_drop_self _ _ _ hne, fun hpath => absurd hne (ne_lockPath_iff.mpr hpath)⟩
    · exact .inr ⟨hd, fs, lookup_drop hlive.lookup hne, hdisk⟩

/-- The file of a journal holds what its ledger says, as the format keeps it. -/
theorem LedgerRun.inv {live : Option JournaledHistory} (H : LedgerRun path max w live l) :
    match live with
    | none => LedgerOnDisk path w l
    | some journal => ∃ i hd fs m, LedgerInUse path max w journal l i hd fs m := by
  induction H with
  | start hnone hunlocked =>
    refine ⟨hunlocked, fun _ j hj => ?_, .inl ⟨hnone, fun _ => rfl⟩⟩
    rw [lookup_eq_none_iff.mp hnone] at hj
    cases hj
  | @opened _ _ epochMs _ _ _ hrun ih =>
    obtain ⟨_, _, i, hd, fs, m, hrun', h⟩ := LedgerOnDisk.opened ih max epochMs
    cases hrun.symm.trans hrun'
    exact ⟨i, hd, fs, m, h⟩
  | recorded call _ hrun ih =>
    obtain ⟨i, hd, fs, m, h⟩ := ih
    obtain ⟨_, _, hrun', h'⟩ := h.recorded call
    cases hrun.symm.trans hrun'
    exact ⟨_, _, _, _, h'⟩
  | @compacted _ _ _ epochMs _ _ _ hrun ih =>
    obtain ⟨i, hd, fs, m, h⟩ := ih
    obtain ⟨_, _, _, _, _, hrun', h'⟩ := h.compacted epochMs
    cases hrun.symm.trans hrun'
    exact ⟨_, _, _, _, h'⟩
  | closed _ hrun ih =>
    obtain ⟨i, hd, fs, m, h⟩ := ih
    obtain ⟨_, hrun', h'⟩ := h.closed
    cases hrun.symm.trans hrun'
    exact h'

/-- A close and an opening find the entries on the ledger, or nothing at the path of the lock. -/
theorem LedgerRun.reopen_ok (H : LedgerRun path max w (some journal) l) (max' : Nat)
    (epochMs : UInt64) :
    ∃ reopened w', (journal.reopen max' epochMs).run exec w = (.ok reopened, w') ∧
      reopened.inner.timeline = if path.extension = some lockExtension then []
        else l.disk.map (·.persisted) := by
  obtain ⟨i, hd, fs, m, rfl, _, hlive, _, _, _, hdisk⟩ := H.inv
  obtain ⟨reopened, w', hrun, hinner⟩ := reopen_frames hlive max' epochMs
  refine ⟨reopened, w', hrun, ?_⟩
  rw [hinner]
  split
  · exact ReconcileHistory.timeline_ofEntries []
  · rename_i hpath
    rw [ReconcileHistory.timeline_ofEntries, hdisk hpath]

/-- A run of one session that began with no file. -/
theorem exists_ledgerRun (path : Path) (max : Nat) (calls : List Call) :
    ∃ w journal, LedgerRun path max w (some journal)
      ⟨calls.map (·.entry), calls.map (·.entry), calls.map (·.entry)⟩ := by
  induction calls using List.reverseRecOn with
  | nil =>
    have hunlocked : Unlocked (FileSystem.empty : FileSystem Path) path := rfl
    have H : LedgerRun path max FileSystem.empty none ⟨[], [], []⟩ := .start rfl hunlocked
    obtain ⟨journal, w, _, _, _, _, hopen, _⟩ := LedgerOnDisk.opened H.inv max 0
    exact ⟨w, journal, H.opened hopen⟩
  | append_singleton calls call ih =>
    obtain ⟨w, journal, H⟩ := ih
    obtain ⟨_, _, _, _, h⟩ := H.inv
    obtain ⟨journal', w', hrun, _⟩ := h.recorded call
    rw [List.map_append]
    exact ⟨w', journal', H.recorded call hrun⟩

end Driftbrake
