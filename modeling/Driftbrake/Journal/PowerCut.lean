import Driftbrake.Journal.OnDisk

/-!
# Power cuts

No method of the journal forces bytes to the disk: `flush` does nothing for a `File`, and nothing
else is called. So a power cut may take any number of bytes from the end of any file (`PowerCut`).
`powerCut_recovers` says which power cuts a run survives: those that take no more from the journal
than an interrupted call had written of its frame.
-/

namespace Driftbrake

open FileSystem

open JournaledHistory (Call)

/-- `v` is what a power cut may leave of `w`. Operations on the directory survive, a rename among
them, and nothing is open afterwards. -/
structure FileSystem.PowerCut {P : Type} (w v : FileSystem P) : Prop where
  dir : v.dir = w.dir
  content : ∀ i, v.content i <+: w.content i
  handles : ∀ fd, v.handles fd = none

section
variable (path : Path) (max : Nat)

/-- The states between the steps of a run, with `compacted` if a `compact` has run. -/
inductive Ran : (compacted : Bool) → FileSystem Path → Option JournaledHistory →
    List HistoryEntry → Prop
  | start : w.lookup path = none → Unlocked w path → Ran false w none []
  | opened : Ran c w none es →
    (openOrCreate path max epochMs).run exec w = (.ok journal, w') → Ran c w' (some journal) es
  | recorded (call : Call) : Ran c w (some journal) es → call.entry.Recordable →
    (journal.record call.timestampMs call.entry).run exec w = ((.ok (), journal'), w') →
    Ran c w' (some journal') (es ++ [call.entry])
  | compacted : Ran c w (some journal) es →
    (journal.compact epochMs).run exec w = ((.ok (), journal'), w') → Ran true w' (some journal') es
  | closed : Ran c w (some journal) es → journal.drop.run exec w = ((), w') → Ran c w' none es

/-- The states in which a run can be interrupted: between two file system operations of a step. The
call that is interrupted has written `part` of the frame for `writing`. -/
inductive Interrupted : (compacted : Bool) → FileSystem Path → List HistoryEntry →
    (writing : List HistoryEntry) → (part : List UInt8) → Prop
  | opening : Ran path max c w none es → (openOrCreate path max epochMs).Visits exec w v →
    Interrupted c v es [] []
  | recording (call : Call) : Ran path max c w (some journal) es → call.entry.Recordable →
    (journal.record call.timestampMs call.entry).Visits exec w v →
    contentAt v path = contentAt w path ++ part → Interrupted c v es [call.entry] part
  | compacting : Ran path max c w (some journal) es → (journal.compact epochMs).Visits exec w v →
    Interrupted true v es [] []
  | closing : Ran path max c w (some journal) es → journal.drop.Visits exec w v →
    Interrupted c v es [] []

end

/-- How many of the acknowledged entries a run has to keep: all, or the last `max` once a `compact`
has run. -/
def required (compacted : Bool) (max : Nat) (es : List HistoryEntry) : Nat :=
  if compacted then max else es.length

/-- The next opening finds the acknowledged entries that have to be kept, and perhaps the entry that
was being written behind them. -/
def RecoversAcknowledged (path : Path) (n : Nat) (es writing : List HistoryEntry)
    (v : FileSystem Path) : Prop :=
  ∃ kept written, Covers n es kept ∧ (written = [] ∨ written = writing) ∧
    Recoverable v path (kept ++ written)

/-- The power cut takes no more bytes from the journal than the interrupted call has written, or
nothing has been acknowledged and nothing is left. -/
def Spares (path : Path) (es : List HistoryEntry) (part : List UInt8) (v v' : FileSystem Path) :
    Prop :=
  (contentAt v path).length ≤ (contentAt v' path).length + part.length ∨
    (es = [] ∧ contentAt v' path = [])

variable {w w' v v' : FileSystem Path} {path : Path} {max n : Nat} {c : Bool}
  {journal journal' : JournaledHistory} {live : Option JournaledHistory}
  {es writing : List HistoryEntry} {hd : Header} {fs : List Frame} {bs part : List UInt8}
  {epochMs : UInt64}

/-! ## Without a compaction the number of retained entries does not matter -/

namespace JournaledHistory

def retaining (n : Nat) (journal : JournaledHistory) : JournaledHistory :=
  { journal with maxRetainedEntries := n }

theorem record_retaining (journal : JournaledHistory) (n : Nat) (timestampMs : UInt64)
    (e : HistoryEntry) : (journal.retaining n).record timestampMs e =
      (fun r => (r.1, r.2.retaining n)) <$> journal.record timestampMs e := by
  rw [record_eq_commit, record_eq_commit, commit, commit, map_bind]
  refine bind_congr fun written => ?_
  cases written <;> rfl

end JournaledHistory

open JournaledHistory (retaining record_retaining)

theorem openOrCreate_retaining (path : Path) (max n : Nat) (epochMs : UInt64) :
    openOrCreate path n epochMs =
      (fun r => r.map (retaining n)) <$> openOrCreate path max epochMs := by
  rw [openOrCreate, openOrCreate, map_bind]
  refine bind_congr fun locked => ?_
  rcases locked with e | _
  · cases e <;> rfl
  dsimp only
  rw [map_bind]
  refine bind_congr fun opened => ?_
  rcases opened with e | file
  · rfl
  dsimp only
  rw [map_bind]
  refine bind_congr fun recovered => ?_
  cases recovered <;> rfl

theorem visits_openOrCreate_retaining (h : (openOrCreate path max epochMs).Visits exec w v) :
    (openOrCreate path n epochMs).Visits exec w v := by
  rw [openOrCreate_retaining path max n, Prog.visits_map]
  exact h

theorem Ran.reached (H : Ran path max c w live es) : Reached path max w live es := by
  induction H with
  | start hnone hunlocked => exact .start hnone hunlocked
  | opened _ hrun ih => exact ih.opened hrun
  | recorded call _ hcall hrun ih => exact ih.recorded call hcall hrun
  | compacted _ hrun ih => exact ih.compacted hrun
  | closed _ hrun ih => exact ih.closed hrun

theorem Ran.reached_retaining (H : Ran path max c w live es) (hc : c = false) (n : Nat) :
    Reached path n w (live.map (retaining n)) es := by
  induction H with
  | start hnone hunlocked => exact .start hnone hunlocked
  | @opened _ _ _ epochMs _ _ _ hrun ih =>
    refine (ih hc).opened (?_ : (openOrCreate path n epochMs).run exec _ = _)
    rw [openOrCreate_retaining path max n, Prog.run_map, hrun]
    rfl
  | recorded call _ hcall hrun ih =>
    refine (ih hc).recorded call hcall ?_
    rw [record_retaining, Prog.run_map, hrun]
  | compacted => cases hc
  | closed _ hrun ih => exact (ih hc).closed hrun

/-- A run with compactions keeps what `required` says as it is, any other if its journals are taken
to retain as much. -/
theorem Ran.exists_reached (H : Ran path max c w live es) :
    ∃ f, (f = id ∨ f = retaining (required c max es)) ∧
      Reached path (required c max es) w (live.map f) es := by
  cases c with
  | false => exact ⟨_, .inr rfl, H.reached_retaining rfl _⟩
  | true => exact ⟨id, .inl rfl, by rw [Option.map_id]; exact H.reached⟩

/-! ## What the file holds when the power is cut -/

theorem Interrupted.content (H : Interrupted path max c v es writing part)
    (hne : path ≠ path.lockPath) (htemp : path.withExtension compactExtension ≠ path) :
    (part = [] ∧ Holds path (required c max es) es v) ∨
      ∃ e timestampMs hd fs, writing = [e] ∧ e.Recordable ∧
        contentAt v path = image hd fs ++ part ∧ Covers (required c max es) es (entries fs) ∧
        part <+: (Frame.ofEntry e timestampMs).bytes := by
  cases H with
  | opening hran hv =>
    obtain ⟨f, _, hreached⟩ := hran.exists_reached
    obtain ⟨_, _, _, _, _, _, _, _, hvis⟩ := OnDisk.opened (hreached.inv hne htemp) htemp _
    exact .inl ⟨rfl, hvis v (visits_openOrCreate_retaining hv)⟩
  | @recording _ w journal _ _ _ call hran hcall hv hpart =>
    obtain ⟨f, hf, hreached⟩ := hran.exists_reached
    obtain ⟨i, hd, fs, mem, h⟩ := hreached.inv hne htemp
    obtain ⟨_, _, _, _, hvis⟩ := h.recorded call hcall
    have hv : ((f journal).record call.timestampMs call.entry).Visits exec w v := by
      rcases hf with rfl | rfl
      · exact hv
      · rw [record_retaining, Prog.visits_map]
        exact hv
    obtain ⟨part', hpart', hcontent⟩ := hvis v hv
    have hbefore : contentAt w path = image hd fs :=
      contentAt_of_lookup (h.path_eq ▸ h.live.lookup)
    rw [hbefore] at hpart
    cases List.append_cancel_left (hpart.symm.trans hcontent)
    exact .inr ⟨_, _, hd, fs, rfl, hcall, hcontent, h.disk, hpart'⟩
  | compacting hran hv =>
    obtain ⟨i, hd, fs, mem, h⟩ := hran.reached.inv hne htemp
    obtain ⟨_, _, _, _, _, _, _, _, hvis⟩ := h.compacted htemp _
    exact .inl ⟨rfl, hvis v hv⟩
  | closing hran hv =>
    obtain ⟨f, hf, hreached⟩ := hran.exists_reached
    obtain ⟨i, hd, fs, mem, h⟩ := hreached.inv hne htemp
    obtain ⟨_, _, _, hvis⟩ := h.closed hne
    refine .inl ⟨rfl, hvis v ?_⟩
    rcases hf with rfl | rfl <;> exact hv

/-! ## What is recovered afterwards -/

theorem contentAt_powerCut (path : Path) (hcut : v.PowerCut v') :
    contentAt v' path <+: contentAt v path := by
  simp only [contentAt, FileSystem.lookup, hcut.dir]
  cases v.dir path with
  | none => exact List.nil_prefix
  | some i => exact hcut.content i

theorem Covers.eq_of_length {kept : List HistoryEntry} (h : Covers es.length es kept) :
    kept = es :=
  h.suffix.eq_of_length (le_antisymm h.suffix.length_le (by simpa using h.length_le))

/-- What is recovered is at the front of the file. -/
theorem Recoverable.exists_image (h : Recoverable v path es) (hne : path ≠ path.lockPath) :
    (contentAt v path = [] ∧ es = []) ∨
      ∃ hd fs, image hd fs <+: contentAt v path ∧ entries fs = es := by
  obtain ⟨journal, w, hrun, hof⟩ := h 0 0
  rw [← contentAt_unlock hne]
  rcases content_of_opened hrun with ⟨hnil, hinner⟩ | ⟨hd, fs, tail, hcontent, _, hinner⟩
  · rw [hinner] at hof
    exact .inl ⟨hnil, hof.timeline.symm⟩
  · rw [hinner] at hof
    refine .inr ⟨hd, fs, ⟨tail, hcontent.symm⟩, ?_⟩
    rw [← hof.timeline, ReconcileHistory.timeline_ofEntries]

/-- Of two images at the front of the same bytes, the one with more frames is the longer one. -/
theorem length_image_le {hd' : Header} {fs' : List Frame}
    (h : image hd' fs' <+: image hd fs ++ bs) (hlen : fs.length ≤ fs'.length) :
    (image hd fs).length ≤ (image hd' fs').length := by
  rw [image, image, List.append_assoc] at h
  have hhead : hd'.bytes = hd.bytes := by
    obtain ⟨rest, hrest⟩ := h
    rw [List.append_assoc] at hrest
    exact (List.append_inj hrest (hd'.length_bytes.trans hd.length_bytes.symm)).1
  rw [hhead, List.prefix_append_right_inj] at h
  obtain ⟨gs, tail, H⟩ := frameCode.exists_decodes bs
  have hfs : fs <+: fs' :=
    List.prefix_of_prefix_length_le (List.prefix_append fs gs)
      ((H.encode_append fs).prefix_of_encode h)
      hlen
  obtain ⟨more, rfl⟩ := hfs
  rw [image, image, hhead, FrameCode.encode_append]
  simp only [List.length_append]
  omega

/-- The file still holds what the interrupted call had found, or what it was to leave. -/
theorem Interrupted.recovers (H : Interrupted path max c v es writing part)
    (hne : path ≠ path.lockPath) (htemp : path.withExtension compactExtension ≠ path)
    (hcut : v.PowerCut v') (hspares : Spares path es part v v') :
    RecoversAcknowledged path (required c max es) es writing v' := by
  have hpre := contentAt_powerCut path hcut
  rcases hspares with hle | ⟨rfl, hnil⟩
  · rcases H.content hne htemp with ⟨rfl, hholds⟩ |
      ⟨e, timestampMs, hd, fs, rfl, he, hcontent, hcovers, hpart⟩
    · have hsame := hpre.eq_of_length_le hle
      obtain ⟨kept, hcovers, hrec⟩ : Fine path (required c max es) es v' := by
        refine Holds.fine ?_ hne
        rwa [Holds, hsame]
      exact ⟨kept, [], hcovers, .inl rfl, (List.append_nil kept).symm ▸ hrec⟩
    · rw [hcontent] at hpre hle
      obtain ⟨part', hcontent'⟩ : image hd fs <+: contentAt v' path := by
        refine List.prefix_of_prefix_length_le (List.prefix_append _ part) hpre ?_
        rw [List.length_append] at hle
        omega
      rw [← hcontent', List.prefix_append_right_inj] at hpre
      rcases recoverable_of_part hne he hcontent'.symm (hpre.trans hpart) with hrec | hrec
      · exact ⟨_, [], hcovers, .inl rfl, (List.append_nil _).symm ▸ hrec⟩
      · exact ⟨_, _, hcovers, .inr rfl, hrec⟩
  · exact ⟨[], [], .self [], .inl rfl, recoverable_of_nil hne hnil⟩

/-- Without a compaction every frame of the file is needed. -/
theorem Interrupted.spares (H : Interrupted path max false v es writing part)
    (hne : path ≠ path.lockPath) (htemp : path.withExtension compactExtension ≠ path)
    (hcut : v.PowerCut v') (hrec : RecoversAcknowledged path es.length es writing v') :
    Spares path es part v v' := by
  obtain ⟨kept, written, hcovers, -, hrec⟩ := hrec
  obtain rfl := hcovers.eq_of_length
  rcases hrec.exists_image hne with ⟨hnil, hempty⟩ | ⟨hd', fs', himage, hentries⟩
  · exact .inr ⟨(List.append_eq_nil_iff.mp hempty).1, hnil⟩
  -- the frames that are recovered are at least as many as those acknowledged
  have hle : ∀ {hd fs}, contentAt v path = image hd fs ++ part →
      Covers kept.length kept (entries fs) →
      (contentAt v path).length ≤ (contentAt v' path).length + part.length := by
    intro hd fs hcontent hcovers
    have hlen : fs.length ≤ fs'.length := by
      rw [← hcovers.eq_of_length] at hentries
      have := congrArg List.length hentries
      simp only [entries, List.length_append, List.length_map] at this
      omega
    have := length_image_le (hcontent ▸ himage.trans (contentAt_powerCut path hcut)) hlen
    have := himage.length_le
    rw [hcontent, List.length_append]
    omega
  refine .inl ?_
  rcases H.content hne htemp with ⟨rfl, ⟨hnil, -⟩ | ⟨hd, fs, hcontent, hcovers⟩⟩ |
    ⟨_, _, hd, fs, -, -, hcontent, hcovers, -⟩
  · rw [hnil]
    exact Nat.zero_le _
  · exact hle (hcontent.trans (List.append_nil _).symm) hcovers
  · exact hle hcontent hcovers

/-- **Power cuts.** Whatever the calls of a run were and wherever it is interrupted: a power cut
that takes no more from the journal than the interrupted call has written costs no acknowledged
entry, but for those that a compaction drops. In a run without a compaction every other power cut
does. -/
theorem powerCut_recovers (hlock : path.extension ≠ some lockExtension)
    (hcompact : path.extension ≠ some compactExtension)
    (H : Interrupted path max c v es writing part) (hcut : v.PowerCut v') :
    (Spares path es part v v' → RecoversAcknowledged path (required c max es) es writing v') ∧
    (c = false → RecoversAcknowledged path (required c max es) es writing v' →
      Spares path es part v v') := by
  have hne := ne_lockPath_iff.mpr hlock
  have htemp : path.withExtension compactExtension ≠ path :=
    mt (Path.withExtension_eq_self_iff (by decide)).mp hcompact
  refine ⟨H.recovers hne htemp hcut, ?_⟩
  rintro rfl hrec
  exact H.spares hne htemp hcut hrec

/-- A power cut can leave any number of bytes. -/
theorem exists_powerCut (v : FileSystem Path) (n : Nat) :
    ∃ v', v.PowerCut v' ∧ ∀ path, contentAt v' path = (contentAt v path).take n := by
  refine ⟨{ v with
    content := fun i => (v.content i).take n
    handles := fun _ => none
    inode_lt := fun h => absurd h.symm (Option.some_ne_none _)
    handles_lt := fun h => absurd h.symm (Option.some_ne_none _) }, ?_, ?_⟩
  · exact ⟨rfl, fun i => List.take_prefix n _, fun _ => rfl⟩
  intro path
  simp only [contentAt, FileSystem.lookup]
  cases v.dir path with
  | none => exact List.take_nil.symm
  | some i => rfl

/-- A run with one acknowledged trade. -/
theorem exists_ran_one_trade (max : Nat) (hne : path ≠ path.lockPath)
    (htemp : path.withExtension compactExtension ≠ path) : ∃ w journal i hd fs mem,
      Ran path max false w (some journal) [.trade 100 90] ∧
      InUse path max w journal [.trade 100 90] i hd fs mem := by
  have hstart : Ran path max false FileSystem.empty none [] := .start rfl (by rw [Unlocked]; rfl)
  obtain ⟨_, _, _, _, _, _, hopen, h, _⟩ :=
    OnDisk.opened (hstart.reached.inv hne htemp) htemp 0
  obtain ⟨_, _, hrecord, h, _⟩ := h.recorded ⟨0, .trade 100 90⟩ trivial
  exact ⟨_, _, _, _, _, _, (hstart.opened hopen).recorded ⟨0, .trade 100 90⟩ trivial hrecord, h⟩

/-- A power cut in a second call, that takes all of its frame. -/
theorem powerCut_recovers_second_trade : ∃ v v' part,
    Interrupted driftJournal 100 false v [.trade 100 90] [.trade 100 80] part ∧ v.PowerCut v' ∧
      RecoversAcknowledged driftJournal 1 [.trade 100 90] [.trade 100 80] v' := by
  obtain ⟨w, journal, i, hd, fs, mem, hran, h⟩ :=
    exists_ran_one_trade 100 driftJournal_ne_lockPath driftJournal_tempPath_ne
  obtain ⟨_, v, hrun, _, hvis⟩ := h.recorded ⟨0, .trade 100 80⟩ trivial
  have hv := Prog.Visits.of_run hrun
  obtain ⟨part, _, hcontent⟩ := hvis v hv
  have hbefore : contentAt w driftJournal = image hd fs :=
    contentAt_of_lookup (h.path_eq ▸ h.live.lookup)
  rw [← hbefore] at hcontent
  obtain ⟨v', hcut, hkept⟩ := exists_powerCut v (contentAt w driftJournal).length
  have H := Interrupted.recording ⟨0, .trade 100 80⟩ hran trivial hv hcontent
  refine ⟨v, v', part, H, hcut, (powerCut_recovers (by decide) (by decide) H hcut).1 (.inl ?_)⟩
  rw [hkept, hcontent]
  simp

/-- A power cut right after an append that returned: nothing of the journal is left. -/
theorem not_powerCut_recovers_all_lost : ¬∀ v v' es writing part,
    Interrupted driftJournal 100 false v es writing part → v.PowerCut v' →
      RecoversAcknowledged driftJournal (required false 100 es) es writing v' := by
  intro hall
  obtain ⟨w, journal, i, hd, fs, mem, hran, h⟩ :=
    exists_ran_one_trade 100 driftJournal_ne_lockPath driftJournal_tempPath_ne
  obtain ⟨v', hcut, hkept⟩ := exists_powerCut w 0
  have H := Interrupted.closing hran (.self _ _ _)
  have hbefore : contentAt w driftJournal = image hd fs :=
    contentAt_of_lookup (h.path_eq ▸ h.live.lookup)
  rcases H.spares driftJournal_ne_lockPath driftJournal_tempPath_ne hcut (hall _ _ _ _ _ H hcut)
    with hle | ⟨hnil, _⟩
  · rw [hkept, List.take_zero, hbefore, image, List.length_append, hd.length_bytes] at hle
    simp at hle
  · cases hnil

end Driftbrake
