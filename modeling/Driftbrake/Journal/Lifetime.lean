import Driftbrake.Journal.Recovery

/-!
# The lifetimes of a journal

A session opens the journal, records entries and ends: cleanly, or in the middle of a write of
which any strict prefix has reached the file. `AfterSessions path w es` is the state after any
number of them, `es` the entries of their calls. A journal is `Durable` when every opening then
finds exactly `es`; it is, unless its path is that of its own lock (`durable_iff`).
-/

namespace Driftbrake

open FileSystem

open JournaledHistory (Call)

/-- A write that was cut short: the first `kept` bytes of `frame` have reached the file. -/
structure TornWrite where
  frame : Frame
  kept : Nat
  kept_lt : kept < frame.bytes.length

inductive Ending
  | clean
  | torn (write : TornWrite)

/-- What the ending of a session leaves of a frame. -/
def Ending.part : Ending → List UInt8
  | .clean => []
  | .torn write => write.frame.bytes.take write.kept

/-- The end of a session. A torn write goes with its process, and with the handle; its lock file is
removed by whoever starts the next session. -/
def JournaledHistory.finish (journal : JournaledHistory) :
    Ending → Prog (FsOp Path) Unit
  | .clean => journal.drop
  | .torn write => do
    let _ ← Prog.perform (.writeAll journal.file (write.frame.bytes.take write.kept))
    journal.drop

structure Session where
  maxRetainedEntries : Nat
  epochMs : UInt64
  calls : List Call
  ending : Ending

/-- `w` is a state between sessions on the journal at `path`, which began with no file, and `es` are
the entries of the calls made so far. -/
inductive AfterSessions (path : Path) : FileSystem Path → List HistoryEntry → Prop
  | start : w.lookup path = none → Unlocked w path → AfterSessions path w []
  | session (s : Session) : AfterSessions path w es →
    (openOrCreate path s.maxRetainedEntries s.epochMs).run exec w = (.ok journal, w₁) →
    (journal.recordAll s.calls).run exec w₁ = ((.ok (), journal'), w₂) →
    (journal'.finish s.ending).run exec w₂ = ((), w₃) →
    AfterSessions path w₃ (es ++ s.calls.map (·.entry))

/-- Whatever happened before, opening the journal succeeds, yields the history of all entries of all
sessions, and leaves the file cut behind the frame of the last one. -/
def Durable (path : Path) : Prop :=
  ∀ w es, AfterSessions path w es → (∀ e ∈ es, e.Recordable) → ∀ max epochMs, ∃ journal w' hd fs,
    (openOrCreate path max epochMs).run exec w = (.ok journal, w') ∧ journal.inner.IsOf es ∧
    w'.lookup path = some (image hd fs) ∧ entries fs = es ∧
    (w.lookup path = none ∨
      ∃ tail, w.lookup path = some (image hd fs ++ tail) ∧ Frame.next tail = none)

/-- No other entry of the directory is a link to the file at `path`. -/
def Unlinked (w : FileSystem Path) (path : Path) : Prop :=
  ∀ {q}, q ≠ path → q ≠ path.lockPath → ∀ j, w.dir path = some j → w.dir q ≠ some j

/-- A journal at rest, whose frames hold `es`, possibly with the beginning of another behind. -/
structure Stored (w : FileSystem Path) (path : Path) (es : List HistoryEntry) : Prop where
  unlocked : Unlocked w path
  unlinked : Unlinked w path
  content : (w.lookup path = none ∧ es = []) ∨
    ∃ hd fs tail, w.lookup path = some (image hd fs ++ tail) ∧ Frame.next tail = none ∧
      entries fs = es

variable {w w' : FileSystem Path} {path : Path} {es : List HistoryEntry}
  {journal : JournaledHistory} {i : Nat} {bs : List UInt8}

theorem Stored.open_ok (h : Stored w path es) (max : Nat) (epochMs : UInt64) :
    ∃ i w' hd fs, (openOrCreate path max epochMs).run exec w =
        (.ok ⟨.ofEntries es, w.fds, path, max⟩, w') ∧
      Live w' ⟨.ofEntries es, w.fds, path, max⟩ i (image hd fs) ∧ Unlinked w' path ∧
      entries fs = es ∧
      (w.lookup path = none ∨
        ∃ tail, w.lookup path = some (image hd fs ++ tail) ∧ Frame.next tail = none) := by
  have hunlinked : ∀ {i w'}, OpenedJournal w w' path i → w'.dir path = some i →
      Unlinked w' path := by
    intro i w' ho hi q hq hql j hj
    cases hi.symm.trans hj
    exact ho.unlinked hq hql (h.unlinked hq hql)
  rcases h.content with ⟨hnone, rfl⟩ | ⟨hd, fs, tail, hsome, hstop, rfl⟩
  · have hcontent := contentAt_of_none hnone
    obtain ⟨i, w', hrun, hlive, ho, _⟩ := openOrCreate_new max epochMs h.unlocked hcontent
    exact ⟨i, w', .new epochMs, [], hrun, hlive, hunlinked ho hlive.entry, rfl, .inl hnone⟩
  · have hcontent : contentAt w path = hd.bytes ++ (frameCode.encode fs ++ tail) := by
      rw [contentAt_of_lookup hsome, ← List.append_assoc]
      rfl
    obtain ⟨i, w', hrun, hlive, ho, _⟩ :=
      openOrCreate_image max epochMs h.unlocked hcontent ⟨rfl, hstop⟩
    exact ⟨i, w', hd, fs, hrun, hlive, hunlinked ho hlive.entry, rfl, .inr ⟨tail, hsome, hstop⟩⟩

theorem Unlinked.of_dir (h : Unlinked w path) (hdir : ∀ {q}, q ≠ path.lockPath → w'.dir q = w.dir q)
    (hne : path ≠ path.lockPath) : Unlinked w' path := by
  intro q hq hql j hj
  rw [hdir hne] at hj
  rw [hdir hql]
  exact h hq hql j hj

theorem finish_ok (h : Live w journal i bs) (ending : Ending) :
    ∃ w', (journal.finish ending).run exec w = ((), w') ∧ Unlocked w' journal.path ∧
      (∀ {q}, q ≠ journal.path.lockPath → w'.dir q = w.dir q) ∧
      (journal.path ≠ journal.path.lockPath →
        w'.lookup journal.path = some (bs ++ ending.part)) := by
  cases ending with
  | clean =>
    refine ⟨_, drop_run h, unlocked_drop .., fun hq => if_neg hq, fun hne => ?_⟩
    rw [lookup_drop h.lookup hne, Ending.part, List.append_nil]
  | torn write =>
    obtain ⟨w', hexec, hat, hsame⟩ := acts_writeAll (write.frame.bytes.take write.kept) w h.openAt
    have h' := h.write hat hsame
    refine ⟨_, ?_, unlocked_drop .., fun hq => ?_, fun hne => lookup_drop h'.lookup hne⟩
    · exact (Prog.run_step hexec).trans (drop_run h')
    · rw [dir_unlink, if_neg hq, dir_closeFd, hsame.dir]

theorem Ending.next_part (ending : Ending) : Frame.next ending.part = none := by
  cases ending with
  | clean => exact frameCode.next_nil
  | torn write => exact frameCode.next_take_eq_none write.kept_lt

/-- A session adds the entries of its calls to what is stored. -/
theorem Stored.session (h : Stored w path es) (hne : path ≠ path.lockPath) (s : Session)
    {journal' : JournaledHistory} {w₁ w₂ w₃ : FileSystem Path}
    (hopen : (openOrCreate path s.maxRetainedEntries s.epochMs).run exec w = (.ok journal, w₁))
    (hcalls : (journal.recordAll s.calls).run exec w₁ = ((.ok (), journal'), w₂))
    (hend : (journal'.finish s.ending).run exec w₂ = ((), w₃)) :
    Stored w₃ path (es ++ s.calls.map (·.entry.persisted)) := by
  obtain ⟨i, w₁, hd, fs, hopen', hlive, hunlinked, rfl, _⟩ :=
    h.open_ok s.maxRetainedEntries s.epochMs
  cases hopen.symm.trans hopen'
  obtain ⟨w₂, hcalls', hlive', hdir⟩ := recordAll_ok hlive s.calls
  cases hcalls.symm.trans hcalls'
  obtain ⟨w₃, hend', hunlocked, hdir', hlookup⟩ := finish_ok hlive' s.ending
  cases hend.symm.trans hend'
  refine ⟨hunlocked, hunlinked.of_dir (fun hq => by rw [hdir' hq, hdir]) hne,
    .inr ⟨hd, fs ++ framesOf s.calls, s.ending.part, hlookup hne, s.ending.next_part, ?_⟩⟩
  rw [entries_append, entries_framesOf]

theorem AfterSessions.stored (H : AfterSessions path w es) (hne : path ≠ path.lockPath) :
    Stored w path (es.map (·.persisted)) := by
  induction H with
  | start hnone hunlocked =>
    refine ⟨hunlocked, fun {q} _ _ j hj => ?_, .inl ⟨hnone, rfl⟩⟩
    rw [lookup_eq_none_iff.mp hnone] at hj
    cases hj
  | session s _ hopen hcalls hend ih =>
    rw [List.map_append, List.map_map]
    exact ih.session hne s hopen hcalls hend

theorem durable_of_ne (h : path.extension ≠ some lockExtension) : Durable path := by
  intro w es H hrec max epochMs
  have hstored := H.stored (ne_lockPath_iff.mpr h)
  rw [HistoryEntry.map_persisted_of_recordable hrec] at hstored
  obtain ⟨i, w', hd, fs, hrun, hlive, _, hentries, hcut⟩ := hstored.open_ok max epochMs
  exact ⟨_, w', hd, fs, hrun, ReconcileHistory.isOf_ofEntries es, hlive.lookup, hentries, hcut⟩

/-- A session with one call, on a journal that takes its own file for the lock file: the file is
created as the lock, and removed with it when the journal is dropped. -/
theorem not_durable_of_eq (h : path.extension = some lockExtension) : ¬Durable path := by
  intro H
  have hp : path = path.lockPath := eq_lockPath_iff.mpr h
  let call : Call := ⟨0, .trade 100 90⟩
  let s : Session := ⟨1, 0, [call], .clean⟩
  have hunlocked : Unlocked (FileSystem.empty : FileSystem Path) path := rfl
  obtain ⟨i, w₁, hopen, hlive, _⟩ := openOrCreate_new 1 0 hunlocked rfl
  obtain ⟨w₂, hcalls, hlive', _⟩ := recordAll_ok hlive s.calls
  have hafter := AfterSessions.session s (.start rfl hunlocked) hopen hcalls (drop_run hlive')
  have hnone := lookup_drop_self w₂ path (FileSystem.empty : FileSystem Path).fds hp
  obtain ⟨journal, w', _, _, hrun, hof, _⟩ :=
    H _ _ hafter (fun e he => List.mem_singleton.mp he ▸ trivial) 1 0
  obtain ⟨_, w'', hrun', _⟩ := openOrCreate_new 1 0
    (unlocked_drop w₂ path (FileSystem.empty : FileSystem Path).fds) (contentAt_of_none hnone)
  cases hrun.symm.trans hrun'
  cases hof.timeline

/-- **Durability of the journal over whole lifetimes**: it holds of every path but those with the
extension `lock`. -/
theorem durable_iff (path : Path) : Durable path ↔ path.extension ≠ some lockExtension :=
  ⟨fun H h => not_durable_of_eq h H, durable_of_ne⟩

/-- A journal named `drift.lock` forgets. -/
theorem not_durable_drift_lock : ¬Durable ⟨"/var/lib", "drift.lock".toList⟩ :=
  not_durable_of_eq (by decide)

end Driftbrake
