import Driftbrake.Journal.Compact
import Driftbrake.Lib.Windows

/-!
# What the file holds at every moment

A journal is opened, written to, compacted and closed, in any order and any number of times.
`Reached` are the states between these steps, with the entries acknowledged since the file was
created, and `Moment` the states between two file system operations of a step. The file, the memory
and the acknowledged entries drift apart, but file and memory always cover the last entries
(`Covers`): `OnDisk` and `InUse` say so of a closed and of an open journal, and every step keeps it.
-/

namespace Driftbrake

open FileSystem

open JournaledHistory (Call)

section
variable (path : Path) (max : Nat)

/-- The states between the steps of a run, `es` the entries acknowledged so far. `none` is a journal
that is closed. -/
inductive Reached : FileSystem Path → Option JournaledHistory → List HistoryEntry → Prop
  | start : w.lookup path = none → Unlocked w path → Reached w none []
  | opened : Reached w none es →
    (openOrCreate path max epochMs).run exec w = (.ok journal, w') → Reached w' (some journal) es
  | recorded (call : Call) : Reached w (some journal) es → call.entry.Recordable →
    (journal.record call.timestampMs call.entry).run exec w = ((.ok (), journal'), w') →
    Reached w' (some journal') (es ++ [call.entry])
  | compacted : Reached w (some journal) es →
    (journal.compact epochMs).run exec w = ((.ok (), journal'), w') → Reached w' (some journal') es
  | closed : Reached w (some journal) es → journal.drop.run exec w = ((), w') → Reached w' none es

/-- The states between two file system operations of a step, `writing` the entry that the step has
to write. -/
inductive Moment : FileSystem Path → List HistoryEntry → List HistoryEntry → Prop
  | opening : Reached path max w none es → (openOrCreate path max epochMs).Visits exec w v →
    Moment v es []
  | recording (call : Call) : Reached path max w (some journal) es → call.entry.Recordable →
    (journal.record call.timestampMs call.entry).Visits exec w v → Moment v es [call.entry]
  | compacting : Reached path max w (some journal) es →
    (journal.compact epochMs).Visits exec w v → Moment v es []
  | closing : Reached path max w (some journal) es → journal.drop.Visits exec w v → Moment v es []

end

/-- The file at the path, once its lock is removed, is opened with the history of `es`. -/
def Recoverable (v : FileSystem Path) (path : Path) (es : List HistoryEntry) : Prop :=
  ∀ max epochMs, ∃ journal w,
    (openOrCreate path max epochMs).run exec (v.unlink path.lockPath) = (.ok journal, w) ∧
    journal.inner.IsOf es

/-- `kept` is a suffix of `es` with its last `max` entries, or all of them. -/
structure Covers (max : Nat) (es kept : List HistoryEntry) : Prop where
  suffix : kept <:+ es
  length_le : min es.length max ≤ kept.length

variable {w w' v : FileSystem Path} {path : Path} {max i : Nat} {journal : JournaledHistory}
  {es kept : List HistoryEntry} {hd : Header} {fs : List Frame} {bs tail : List UInt8}

theorem Covers.self (es : List HistoryEntry) : Covers max es es :=
  ⟨List.suffix_refl es, Nat.min_le_left ..⟩

theorem Covers.append_singleton (h : Covers max es kept) (e : HistoryEntry) :
    Covers max (es ++ [e]) (kept ++ [e]) := by
  obtain ⟨⟨dropped, rfl⟩, hlen⟩ := h
  refine ⟨⟨dropped, (List.append_assoc ..).symm⟩, ?_⟩
  simp only [List.length_append, List.length_singleton] at hlen ⊢
  omega

theorem Covers.rtake (h : Covers max es kept) : Covers max es (kept.rtake max) := by
  refine ⟨(rtake_suffix kept max).trans h.suffix, ?_⟩
  have := h.length_le
  rw [length_rtake]
  omega

theorem Covers.rtake_eq (h : Covers max es kept) : kept.rtake max = es.rtake max := by
  by_cases hle : max ≤ kept.length
  · exact (rtake_of_suffix h.suffix hle).symm
  · have hlen := h.length_le
    rw [h.suffix.eq_of_length_le (by omega)]

theorem Covers.recordable (h : Covers max es kept) (hes : ∀ e ∈ es, e.Recordable) :
    ∀ e ∈ kept, e.Recordable :=
  fun e he => hes e (h.suffix.subset he)

/-! ## What is recovered from the bytes at the path -/

theorem contentAt_unlock (hne : path ≠ path.lockPath) :
    contentAt (v.unlink path.lockPath) path = contentAt v path := by
  rw [contentAt, lookup_unlink hne, contentAt]

theorem unlocked_unlock (v : FileSystem Path) (path : Path) :
    Unlocked (v.unlink path.lockPath) path := by
  rw [Unlocked, dir_unlink, if_pos rfl]

theorem recoverable_of_nil (hne : path ≠ path.lockPath) (h : contentAt v path = []) :
    Recoverable v path [] := by
  intro max epochMs
  obtain ⟨_, w, hrun, _⟩ := openOrCreate_new max epochMs (unlocked_unlock v path)
    ((contentAt_unlock hne).trans h)
  exact ⟨_, w, hrun, ReconcileHistory.isOf_ofEntries []⟩

theorem recoverable_of_image (hne : path ≠ path.lockPath)
    (h : contentAt v path = image hd fs ++ tail) (hstop : Frame.next tail = none) :
    Recoverable v path (entries fs) := by
  intro max epochMs
  have hcontent : contentAt (v.unlink path.lockPath) path =
      hd.bytes ++ (frameCode.encode fs ++ tail) := by
    rw [contentAt_unlock hne, h, image, List.append_assoc]
  obtain ⟨_, w, hrun, _⟩ :=
    openOrCreate_image max epochMs (unlocked_unlock v path) hcontent ⟨rfl, hstop⟩
  exact ⟨_, w, hrun, ReconcileHistory.isOf_ofEntries _⟩

theorem recoverable_of_lookup (hne : path ≠ path.lockPath)
    (h : v.lookup path = some (image hd fs)) : Recoverable v path (entries fs) := by
  rw [← List.append_nil (image hd fs)] at h
  exact recoverable_of_image hne (contentAt_of_lookup h) frameCode.next_nil

/-- Behind the frames there may be a part of the frame for one more entry. -/
theorem recoverable_of_part (hne : path ≠ path.lockPath) {e : HistoryEntry} (he : e.Recordable)
    (h : contentAt v path = image hd fs ++ tail)
    (hpart : tail <+: (Frame.ofEntry e timestampMs).bytes) :
    Recoverable v path (entries fs) ∨ Recoverable v path (entries fs ++ [e]) := by
  -- either the frame is complete or the replay stops in front of it
  by_cases hfull : tail = (Frame.ofEntry e timestampMs).bytes
  · have hentries : entries (fs ++ [.ofEntry e timestampMs]) = entries fs ++ [e] := by
      rw [entries_append]
      exact congrArg (entries fs ++ [·])
        ((Frame.entry_ofEntry e timestampMs).trans (HistoryEntry.persisted_of_recordable he))
    rw [hfull, ← image_append_frame, ← List.append_nil (image hd _)] at h
    exact .inr (hentries ▸ recoverable_of_image hne h frameCode.next_nil)
  · obtain ⟨k, hk, rfl⟩ : ∃ k < (Frame.ofEntry e timestampMs).bytes.length,
        tail = (Frame.ofEntry e timestampMs).bytes.take k := by
      refine ⟨tail.length, lt_of_le_of_ne hpart.length_le fun hlen => hfull ?_,
        List.prefix_iff_eq_take.mp hpart⟩
      exact hpart.eq_of_length hlen
    exact .inl (recoverable_of_image hne h (frameCode.next_take_eq_none hk))

/-! ## The invariants -/

/-- The file that `compact` writes is not a link to the journal file. -/
def TempUnlinked (w : FileSystem Path) (path : Path) : Prop :=
  ∀ j, w.dir path = some j → w.dir (path.withExtension compactExtension) ≠ some j

/-- A closed journal. -/
structure OnDisk (path : Path) (max : Nat) (w : FileSystem Path) (es : List HistoryEntry) :
    Prop where
  recordable : ∀ e ∈ es, e.Recordable
  unlocked : Unlocked w path
  tempUnlinked : TempUnlinked w path
  content : (w.lookup path = none ∧ es = []) ∨
    ∃ hd fs, w.lookup path = some (image hd fs) ∧ Covers max es (entries fs)

/-- An open journal, whose memory holds `mem`. -/
structure InUse (path : Path) (max : Nat) (w : FileSystem Path) (journal : JournaledHistory)
    (es : List HistoryEntry) (i : Nat) (hd : Header) (fs : List Frame) (mem : List HistoryEntry) :
    Prop where
  recordable : ∀ e ∈ es, e.Recordable
  path_eq : journal.path = path
  max_eq : journal.maxRetainedEntries = max
  live : Live w journal i (image hd fs)
  tempUnlinked : TempUnlinked w path
  disk : Covers max es (entries fs)
  memory : journal.inner = .ofEntries mem
  covers : Covers max es mem

/-- What is recovered covers the acknowledged entries. -/
def Fine (path : Path) (max : Nat) (es : List HistoryEntry) (v : FileSystem Path) : Prop :=
  ∃ kept, Covers max es kept ∧ Recoverable v path kept

/-- The file holds complete frames only, which cover the acknowledged entries. -/
def Holds (path : Path) (max : Nat) (es : List HistoryEntry) (v : FileSystem Path) : Prop :=
  (contentAt v path = [] ∧ es = []) ∨
    ∃ hd fs, contentAt v path = image hd fs ∧ Covers max es (entries fs)

theorem Holds.of_lookup (h : v.lookup path = some (image hd fs))
    (hcovers : Covers max es (entries fs)) : Holds path max es v :=
  .inr ⟨hd, fs, contentAt_of_lookup h, hcovers⟩

theorem Holds.fine (h : Holds path max es v) (hne : path ≠ path.lockPath) :
    Fine path max es v := by
  rcases h with ⟨hnil, rfl⟩ | ⟨hd, fs, himage, hcovers⟩
  · exact ⟨[], .self [], recoverable_of_nil hne hnil⟩
  · rw [← List.append_nil (image hd fs)] at himage
    exact ⟨_, hcovers, recoverable_of_image hne himage frameCode.next_nil⟩

/-! ## The steps -/

theorem TempUnlinked.of_entry (hentry : w.dir path = some i)
    (h : w.dir (path.withExtension compactExtension) ≠ some i) : TempUnlinked w path := by
  intro j hj
  cases hj.symm.trans hentry
  exact h

theorem OnDisk.opened (h : OnDisk path max w es)
    (htemp : path.withExtension compactExtension ≠ path) (epochMs : UInt64) :
    ∃ journal w' i hd fs mem, (openOrCreate path max epochMs).run exec w = (.ok journal, w') ∧
      InUse path max w' journal es i hd fs mem ∧
      ∀ v, (openOrCreate path max epochMs).Visits exec w v → Holds path max es v := by
  have htl := compactPath_ne_lockPath path
  rcases h.content with ⟨hnone, rfl⟩ | ⟨hd, fs, hsome, hcovers⟩
  · have hcontent := contentAt_of_none hnone
    obtain ⟨i, w', hrun, hlive, ho, hvis⟩ := openOrCreate_new max epochMs h.unlocked hcontent
    refine ⟨_, w', i, .new epochMs, [], [], hrun, ⟨h.recordable, rfl, rfl, hlive, ?_, .self [], rfl,
      .self []⟩, fun v hv => ?_⟩
    · exact .of_entry hlive.entry (ho.unlinked htemp htl h.tempUnlinked)
    · rcases hvis v hv with hv | ⟨_, hv, rfl | rfl⟩
      · exact .inl ⟨contentAt_of_none (hv.trans hnone), rfl⟩
      · exact .inl ⟨contentAt_of_lookup hv, rfl⟩
      · exact .of_lookup hv (.self [])
  · have hcontent : contentAt w path = hd.bytes ++ frameCode.encode fs := contentAt_of_lookup hsome
    obtain ⟨i, w', hrun, hlive, ho, hvis⟩ := openOrCreate_image max epochMs h.unlocked hcontent
      (FrameCode.decodes_encode fs)
    refine ⟨_, w', i, hd, fs, entries fs, hrun, ⟨h.recordable, rfl, rfl, hlive, ?_, hcovers, rfl,
      hcovers⟩, fun v hv => ?_⟩
    · exact .of_entry hlive.entry (ho.unlinked htemp htl h.tempUnlinked)
    · rcases hvis v hv with hv | ⟨_, hv, rfl | rfl⟩
      · exact .of_lookup (hv.trans hsome) hcovers
      · exact .of_lookup hv hcovers
      · exact .of_lookup hv hcovers

theorem InUse.recorded {mem : List HistoryEntry} (h : InUse path max w journal es i hd fs mem)
    (call : Call) (hcall : call.entry.Recordable) :
    ∃ journal' w',
      (journal.record call.timestampMs call.entry).run exec w = ((.ok (), journal'), w') ∧
      InUse path max w' journal' (es ++ [call.entry]) i hd (fs ++ framesOf [call])
        (mem ++ [call.entry]) ∧
      ∀ v, (journal.record call.timestampMs call.entry).Visits exec w v →
        ∃ part, part <+: (Frame.ofEntry call.entry call.timestampMs).bytes ∧
          contentAt v path = image hd fs ++ part := by
  obtain ⟨w', hrun, hlive, hdir, hvis⟩ := record_ok h.live call.entry call.timestampMs
  have hentries : entries (fs ++ framesOf [call]) = entries fs ++ [call.entry] := by
    rw [entries_append, entries_framesOf, List.map_singleton,
      HistoryEntry.persisted_of_recordable hcall]
  have hbytes : image hd fs ++ (Frame.ofEntry call.entry call.timestampMs).bytes =
      image hd (fs ++ framesOf [call]) := (image_append_frame ..).symm
  refine ⟨_, w', hrun, ⟨?_, h.path_eq, h.max_eq, ?_, ?_, ?_, ?_, h.covers.append_singleton _⟩,
    fun v hv => ?_⟩
  · intro e he
    rcases List.mem_append.mp he with he | he
    · exact h.recordable e he
    · rw [List.mem_singleton.mp he]
      exact hcall
  · rw [← hbytes]
    exact hlive
  · rw [TempUnlinked, hdir]
    exact h.tempUnlinked
  · rw [hentries]
    exact h.disk.append_singleton _
  · rw [h.memory, ReconcileHistory.ofEntries_append_singleton]
  · obtain ⟨hvdir, part, hpart, hcontent⟩ := hvis v hv
    refine ⟨part, hpart, contentAt_of_lookup ?_⟩
    rw [FileSystem.lookup, hvdir, ← h.path_eq, h.live.entry, Option.map_some, hcontent]

theorem InUse.compacted {mem : List HistoryEntry} (h : InUse path max w journal es i hd fs mem)
    (htemp : path.withExtension compactExtension ≠ path)
    (epochMs : UInt64) :
    ∃ journal' w' i' hd' fs', (journal.compact epochMs).run exec w = ((.ok (), journal'), w') ∧
      InUse path max w' journal' es i' hd' fs' mem ∧
      (max < mem.length → entries fs' = mem.rtake max) ∧
      ∀ v, (journal.compact epochMs).Visits exec w v → Holds path max es v := by
  obtain ⟨hrec, rfl, rfl, hlive, hunlinked, hdisk, hmem, hcovers⟩ := h
  have htimeline : journal.inner.timeline = mem := by
    rw [hmem, ReconcileHistory.timeline_ofEntries]
  have hbefore : Holds journal.path journal.maxRetainedEntries es w :=
    .of_lookup hlive.lookup hdisk
  by_cases hshort : mem.length ≤ journal.maxRetainedEntries
  · have hcompact := compact_short (by rw [← htimeline] at hshort; exact hshort) epochMs
    refine ⟨journal, w, i, hd, fs, by rw [hcompact]; rfl, ⟨hrec, rfl, rfl, hlive, hunlinked, hdisk,
      hmem, hcovers⟩, fun hlong => absurd hshort (Nat.not_le.mpr hlong), fun v hv => ?_⟩
    rw [hcompact] at hv
    cases (hv : v = w)
    exact hbefore
  · have hlong : journal.maxRetainedEntries < journal.inner.timeline.length := by
      rw [htimeline]
      omega
    obtain ⟨i', file, w', hrun, hlive', hrest⟩ :=
      compact_ok hlive epochMs hlong fun _ => hunlinked i hlive.entry
    obtain ⟨hgone, hvis⟩ := hrest htemp
    have hkept := hcovers.rtake
    have hentries : entries (snapshotFrames journal.retained) =
        mem.rtake journal.maxRetainedEntries := by
      rw [entries_snapshotFrames, JournaledHistory.retained, htimeline,
        HistoryEntry.map_persisted_of_recordable (hkept.recordable hrec)]
    refine ⟨_, w', i', .new epochMs, snapshotFrames journal.retained, hrun, ⟨hrec, rfl, rfl, hlive',
      ?_, hentries ▸ hkept, hmem, hcovers⟩, fun _ => hentries, fun v hv => ?_⟩
    · intro j _ hj
      rw [show w'.dir (journal.path.withExtension compactExtension) = none from hgone] at hj
      cases hj
    · rcases hvis v hv with hv | hv
      · exact .of_lookup hv hdisk
      · exact .of_lookup hv (hentries ▸ hkept)

theorem InUse.closed {mem : List HistoryEntry} (h : InUse path max w journal es i hd fs mem)
    (hne : path ≠ path.lockPath) :
    ∃ w', journal.drop.run exec w = ((), w') ∧ OnDisk path max w' es ∧
      ∀ v, journal.drop.Visits exec w v → Holds path max es v := by
  obtain ⟨hrec, rfl, rfl, hlive, hunlinked, hdisk, hmem, hcovers⟩ := h
  have htl := compactPath_ne_lockPath journal.path
  refine ⟨_, drop_run hlive,
    ⟨hrec, unlocked_drop .., ?_, .inr ⟨hd, fs, lookup_drop hlive.lookup hne, hdisk⟩⟩,
    fun v hv => .of_lookup (drop_visits hlive hne hv) hdisk⟩
  intro j hj
  rw [dir_unlink, if_neg hne, dir_closeFd] at hj
  rw [dir_unlink, if_neg htl, dir_closeFd]
  exact hunlinked j hj

/-! ## Runs -/

/-- The invariant of a journal that is closed or open. -/
def Inv (path : Path) (max : Nat) (w : FileSystem Path) (es : List HistoryEntry) :
    Option JournaledHistory → Prop
  | none => OnDisk path max w es
  | some journal => ∃ i hd fs mem, InUse path max w journal es i hd fs mem

theorem Reached.inv {live : Option JournaledHistory} (H : Reached path max w live es)
    (hne : path ≠ path.lockPath) (htemp : path.withExtension compactExtension ≠ path) :
    Inv path max w es live := by
  induction H with
  | start hnone hunlocked =>
    refine ⟨nofun, hunlocked, fun j hj => ?_, .inl ⟨hnone, rfl⟩⟩
    rw [lookup_eq_none_iff.mp hnone] at hj
    cases hj
  | @opened _ _ epochMs _ _ _ hrun ih =>
    obtain ⟨_, _, i, hd, fs, mem, hrun', h, _⟩ := ih.opened htemp epochMs
    cases hrun.symm.trans hrun'
    exact ⟨i, hd, fs, mem, h⟩
  | recorded call _ hcall hrun ih =>
    obtain ⟨i, hd, fs, mem, h⟩ := ih
    obtain ⟨_, _, hrun', h', _⟩ := h.recorded call hcall
    cases hrun.symm.trans hrun'
    exact ⟨_, _, _, _, h'⟩
  | @compacted _ _ _ epochMs _ _ _ hrun ih =>
    obtain ⟨i, hd, fs, mem, h⟩ := ih
    obtain ⟨_, _, _, _, _, hrun', h', _⟩ := h.compacted htemp epochMs
    cases hrun.symm.trans hrun'
    exact ⟨_, _, _, _, h'⟩
  | closed _ hrun ih =>
    obtain ⟨i, hd, fs, mem, h⟩ := ih
    obtain ⟨_, hrun', h', _⟩ := h.closed hne
    cases hrun.symm.trans hrun'
    exact h'

/-- At every moment the file holds what it held before the step, or the entry being written too. -/
theorem Moment.recoverable {writing : List HistoryEntry} (H : Moment path max v es writing)
    (hne : path ≠ path.lockPath) (htemp : path.withExtension compactExtension ≠ path) :
    ∃ kept written, Covers max es kept ∧ (written = [] ∨ written = writing) ∧
      Recoverable v path (kept ++ written) := by
  have hnothing : ∀ {writing}, Holds path max es v → ∃ kept written, Covers max es kept ∧
      (written = [] ∨ written = writing) ∧ Recoverable v path (kept ++ written) := by
    intro _ h
    obtain ⟨kept, hcovers, h⟩ := h.fine hne
    exact ⟨kept, [], hcovers, .inl rfl, (List.append_nil kept).symm ▸ h⟩
  cases H with
  | @opening _ _ epochMs _ hreached hv =>
    obtain ⟨_, _, _, _, _, _, _, _, hvis⟩ :=
      OnDisk.opened (hreached.inv hne htemp) htemp epochMs
    exact hnothing (hvis v hv)
  | recording call hreached hcall hv =>
    obtain ⟨i, hd, fs, mem, h⟩ := hreached.inv hne htemp
    obtain ⟨_, _, _, _, hvis⟩ := h.recorded call hcall
    obtain ⟨part, hpart, hcontent⟩ := hvis v hv
    rcases recoverable_of_part hne hcall hcontent hpart with hrec | hrec
    · exact ⟨_, [], h.disk, .inl rfl, (List.append_nil _).symm ▸ hrec⟩
    · exact ⟨_, _, h.disk, .inr rfl, hrec⟩
  | @compacting _ _ _ epochMs _ hreached hv =>
    obtain ⟨i, hd, fs, mem, h⟩ := hreached.inv hne htemp
    obtain ⟨_, _, _, _, _, _, _, _, hvis⟩ := h.compacted htemp epochMs
    exact hnothing (hvis v hv)
  | closing hreached hv =>
    obtain ⟨i, hd, fs, mem, h⟩ := hreached.inv hne htemp
    obtain ⟨_, _, _, hvis⟩ := h.closed hne
    exact hnothing (hvis v hv)

/-- **The file is a suffix of what was acknowledged**: at every moment of every run that keeps
`max` entries, what is recovered from the bytes at the path is a suffix of the acknowledged entries
with the last `max` of them, and perhaps the entry being written behind it. Right after a
compaction of more than `max` entries it is the last `max` entries of the memory. -/
theorem file_covers_acknowledged (hlock : path.extension ≠ some lockExtension)
    (hcompact : path.extension ≠ some compactExtension) :
    (∀ v es writing, Moment path max v es writing → ∃ kept written,
      kept <:+ es ∧ min es.length max ≤ kept.length ∧ (written = [] ∨ written = writing) ∧
      Recoverable v path (kept ++ written)) ∧
    (∀ w journal es epochMs journal' w', Reached path max w (some journal) es →
      (journal.compact epochMs).run exec w = ((.ok (), journal'), w') →
      max < journal.inner.timeline.length →
      Recoverable w' path (journal.inner.timeline.rtake max)) := by
  have hne := ne_lockPath_iff.mpr hlock
  have htemp : path.withExtension compactExtension ≠ path :=
    mt (Path.withExtension_eq_self_iff (by decide)).mp hcompact
  refine ⟨fun v es writing H => ?_, fun w journal es epochMs journal' w' H hrun hlong => ?_⟩
  · obtain ⟨kept, written, hcovers, hwritten, hrec⟩ := H.recoverable hne htemp
    exact ⟨kept, written, hcovers.suffix, hcovers.length_le, hwritten, hrec⟩
  · obtain ⟨i, hd, fs, mem, h⟩ := H.inv hne htemp
    have hmem : journal.inner.timeline = mem := by
      rw [h.memory, ReconcileHistory.timeline_ofEntries]
    rw [hmem] at hlong ⊢
    obtain ⟨_, _, _, _, _, hrun', h', hentries, _⟩ := h.compacted htemp epochMs
    cases hrun.symm.trans hrun'
    rw [← hentries hlong]
    exact recoverable_of_lookup hne (h'.path_eq ▸ h'.live.lookup)

/-- Two trades, compacted to one. -/
theorem file_covers_acknowledged_two_trades : ∃ w journal,
    Reached driftJournal 1 w (some journal) [.trade 100 90, .trade 100 80] ∧
      Recoverable w driftJournal [.trade 100 80] := by
  have hne := driftJournal_ne_lockPath
  have htemp := driftJournal_tempPath_ne
  have H₀ : Reached driftJournal 1 FileSystem.empty none [] := .start rfl (by rw [Unlocked]; rfl)
  obtain ⟨_, _, _, _, _, mem, hopen, h, _⟩ := OnDisk.opened (H₀.inv hne htemp) htemp 0
  have hnil : mem = [] := List.suffix_nil.mp h.covers.suffix
  have H₁ := H₀.opened hopen
  obtain ⟨_, _, hfirst, h, _⟩ := h.recorded ⟨0, .trade 100 90⟩ trivial
  have H₂ := H₁.recorded ⟨0, .trade 100 90⟩ trivial hfirst
  obtain ⟨_, _, hsecond, h, _⟩ := h.recorded ⟨0, .trade 100 80⟩ trivial
  have H₃ := H₂.recorded ⟨0, .trade 100 80⟩ trivial hsecond
  obtain ⟨_, _, _, _, _, hrun, _⟩ := h.compacted htemp 0
  have hmem := h.memory
  subst hnil
  have hrec :=
    (file_covers_acknowledged driftJournal_ne_lock driftJournal_ne_compact).2 _ _ _ _ _ _ H₃ hrun
  rw [hmem, ReconcileHistory.timeline_ofEntries] at hrec
  exact ⟨_, _, H₃.compacted hrun, hrec (by decide)⟩

end Driftbrake
