import Driftbrake.Journal.Ledger
import Driftbrake.Lib.Failure

/-!
# Compactions that fail

`compact` replaces the journal file by a snapshot and then opens it again. An operation that fails
before the file is replaced leaves the journal as it was. When the reopening fails, the handle is
still that of the old file, which no path leads to any more; when the seek fails, the new handle is
at the start of the file, and the next call writes over its header. In both cases the calls that
come later return `Ok` and are lost (`failed_compact_keeps`).
-/

namespace Driftbrake

open FileSystem JournaledHistory

/-! ## What a failed compaction leaves -/

/-- The file at the path has been replaced, and the handle is that of the old one. -/
structure Stranded (w : FileSystem Path) (journal : JournaledHistory) (new : List UInt8) :
    Prop where
  openAt : ∃ i bs, w.dir journal.path ≠ some i ∧ w.OpenAt journal.file i bs.length bs
  lookup : w.lookup journal.path = some new
  locked : (w.dir journal.path.lockPath).isSome

/-- The file at the path has been replaced, and the handle is at its start. -/
structure Rewound (w : FileSystem Path) (journal : JournaledHistory) (new : List UInt8) :
    Prop where
  openAt : ∃ i, w.dir journal.path = some i ∧ w.OpenAt journal.file i 0 new
  locked : (w.dir journal.path.lockPath).isSome

/-- The number of operations that `compact` performs before the rename when `max` entries are
kept. -/
def renameOp (max : Nat) : Nat := 2 * max + 4

/-- There is nothing to compact, or no operation that can fail behind the first `n`: it is the
closing of a file, or there is none. -/
def Passes (journal : JournaledHistory) (n : Nat) : Prop :=
  journal.inner.timeline.length ≤ journal.maxRetainedEntries ∨
    n + 1 = renameOp journal.maxRetainedEntries ∨ n = renameOp journal.maxRetainedEntries + 2 ∨
    renameOp journal.maxRetainedEntries + 4 ≤ n

/-- What a compaction has returned and left, the operation behind the first `n` of it having
failed. -/
inductive Outcome (f : Failure) (journal : JournaledHistory) (i : Nat) (bs new : List UInt8)
    (n : Nat) : (Except JournalError Unit × JournaledHistory) × FileSystem Path × Option Nat → Prop
  | done : Passes journal n → Outcome f journal i bs new n ((.ok (), journal'), s)
  | unchanged : n ≤ renameOp journal.maxRetainedEntries → Live w' journal i bs →
    Outcome f journal i bs new n ((.error (.io f.error), journal), w', none)
  | stranded : renameOp journal.maxRetainedEntries < n → Stranded w' journal new →
    Outcome f journal i bs new n ((.error (.io f.error), journal), w', none)
  | rewound : renameOp journal.maxRetainedEntries < n →
    Rewound w' { journal with file := fd } new →
    Outcome f journal i bs new n ((.error (.io f.error), { journal with file := fd }), w', none)

variable {f : Failure} {w w' : FileSystem Path} {path : Path} {max i pos n : Nat}
  {journal journal' : JournaledHistory} {file : Nat} {bs new : List UInt8} {hd : Header}
  {fs : List Frame} {l : Ledger}

/-! ## The snapshot -/

theorem writeFrame_fallible (tag : UInt8) (payload : List UInt8) :
    Fallible f file i bs.length bs (writeFrame file tag payload) 2 (.io f.error) ()
      (bs ++ (metaBytes tag payload.length (crc32 payload) ++ payload)).length
      (bs ++ (metaBytes tag payload.length (crc32 payload) ++ payload)) := by
  rw [← List.append_assoc]
  refine Fallible.bind (k := 1) (l := 1) (.writeAll _ _) ?_
  exact .writeAll _ _

theorem writeEntries_fallible (es : List HistoryEntry) :
    Fallible f file i bs.length bs (writeEntries file es) (2 * es.length) (.io f.error) ()
      (bs ++ frameCode.encode (snapshotFrames es)).length
      (bs ++ frameCode.encode (snapshotFrames es)) := by
  induction es generalizing bs with
  | nil =>
    rw [snapshotFrames, List.map_nil, FrameCode.encode_nil, List.append_nil]
    exact .pure () _
  | cons e es ih =>
    rw [writeEntries_cons, snapshotFrames, List.map_cons, FrameCode.encode_cons,
      ← List.append_assoc, List.length_cons, Nat.mul_succ, Nat.add_comm]
    exact (writeFrame_fallible e.tag (e.encode 0)).bind ih

theorem writeSnapshot_fallible (file : Nat) (epochMs : UInt64) (es : List HistoryEntry) :
    Fallible f file i 0 [] (writeSnapshot file epochMs es) (2 * es.length + 2) (.io f.error) ()
      (image (.new epochMs) (snapshotFrames es)).length
      (image (.new epochMs) (snapshotFrames es)) := by
  have hheader : Fallible (P := Path) f file i ([] : List UInt8).length []
      (io (.writeAll file (header epochMs))) 1 (JournalError.io f.error) ()
      ([] ++ header epochMs).length ([] ++ header epochMs) := .writeAll _ _
  have hk : 2 * es.length + 2 = 1 + (2 * es.length + 1) := by omega
  rw [hk]
  exact hheader.bind ((writeEntries_fallible es).bind (.flush _))

/-! ## The outcomes -/

/-- The operations of an installation: the rename, the opening, the closing of the old handle, the
seek. -/
theorem install_outcome {i' : Nat} {w₂ w₃ : FileSystem Path} (h : Live w journal i bs)
    (htemp : w.dir journal.tempPath ≠ some i) (H : Installation journal new file i' w w₂ w₃)
    (m : Nat) :
    Outcome f journal i bs new (renameOp journal.maxRetainedEntries + m)
      (journal.install.run (execFault f) (w, some m)) := by
  rcases m with _ | _ | _ | _ | m
  · have hrun : journal.install.run (execFault f) (w, some 0) =
        ((.error (.io f.error), journal), w, none) := Prog.run_step (execFault_zero ..)
    rw [hrun]
    exact .unchanged (Nat.le_refl _) h
  · have hrun : journal.install.run (execFault f) (w, some 1) =
        ((.error (.io f.error), journal), w.renameEntry journal.tempPath journal.path, none) :=
      (Prog.run_step (execFault_succ H.rename)).trans (Prog.run_step (execFault_zero ..))
    rw [hrun]
    refine .stranded (Nat.lt_succ_self _) ⟨⟨i, bs, ?_, h.openAt.handle, h.openAt.content⟩,
      H.replaced, H.renamed_locked⟩
    rw [dir_renameEntry, if_pos rfl]
    exact htemp
  · -- closing the old handle cannot fail
    have hrun : journal.install.run (execFault f) (w, some 2) =
        ((.ok (), { journal with file }), w₃, none) := by
      refine (Prog.run_step (execFault_succ H.rename)).trans ?_
      refine (Prog.run_step (execFault_succ H.reopen)).trans ?_
      refine (Prog.run_step (execFault_zero ..)).trans ?_
      have hseek : execFault f (.seekEnd file) (w₂.closeFd journal.file, none) =
          (.ok (), w₃, none) := by rw [execFault_none, H.seek]
      exact Prog.run_step hseek
    rw [hrun]
    exact .done (.inr (.inr (.inl rfl)))
  · have hrun : journal.install.run (execFault f) (w, some 3) =
        ((.error (.io f.error), { journal with file }), w₂.closeFd journal.file, none) := by
      refine (Prog.run_step (execFault_succ H.rename)).trans ?_
      refine (Prog.run_step (execFault_succ H.reopen)).trans ?_
      refine (Prog.run_step (execFault_succ (exec_close ..))).trans ?_
      exact Prog.run_step (execFault_zero ..)
    rw [hrun]
    exact .rewound (Nat.lt_add_of_pos_right (by decide)) ⟨⟨i', H.entry, H.openAt⟩, H.locked⟩
  · have hrun : journal.install.run (execFault f) (w, some (m + 4)) =
        ((.ok (), { journal with file }), w₃, some m) := by
      refine (Prog.run_step (execFault_succ H.rename)).trans ?_
      refine (Prog.run_step (execFault_succ H.reopen)).trans ?_
      refine (Prog.run_step (execFault_succ (exec_close ..))).trans ?_
      exact Prog.run_step (execFault_succ H.seek)
    rw [hrun]
    exact .done (.inr (.inr (.inr (by omega))))

theorem compact_outcome_zero (h : Live w journal i bs) (epochMs : UInt64) :
    Outcome f journal i bs (journal.snapshot epochMs) 0
      ((journal.compact epochMs).run (execFault f) (w, some 0)) := by
  by_cases hshort : journal.inner.timeline.length ≤ journal.maxRetainedEntries
  · rw [compact_short hshort]
    exact .done (.inl hshort)
  · have hrun : (journal.compact epochMs).run (execFault f) (w, some 0) =
        ((.error (.io f.error), journal), w, none) := by
      rw [compact, if_neg hshort]
      exact Prog.run_step (execFault_zero ..)
    rw [hrun]
    exact .unchanged (Nat.zero_le _) h

section
variable (hshort : ¬journal.inner.timeline.length ≤ journal.maxRetainedEntries)
include hshort

theorem length_retained : journal.retained.length = journal.maxRetainedEntries := by
  rw [retained, length_rtake]
  omega

/-- An operation on the temporary file fails. -/
theorem compact_outcome_snapshot (h : Live w journal i bs) (hpt : journal.tempPath ≠ journal.path)
    (htemp : w.dir journal.tempPath ≠ some i) (epochMs : UInt64)
    (hn : n < 2 * journal.maxRetainedEntries + 2) :
    Outcome f journal i bs (journal.snapshot epochMs) (n + 1)
      ((journal.compact epochMs).run (execFault f) (w, some (n + 1))) := by
  obtain ⟨t, w₁, hopen, ho⟩ := exec_openFile w journal.tempPath true true (.inl rfl)
  have hsnapshot := writeSnapshot_fallible (f := f) (i := t) w.fds epochMs journal.retained
  rw [length_retained hshort] at hsnapshot
  obtain ⟨w₂, hwrite, hsame⟩ := hsnapshot.fails w₁ ho.openAt n hn
  have hfile : journal.file ≠ w.fds := Nat.ne_of_lt (w.handles_lt h.openAt.handle)
  have hrun : (journal.compact epochMs).run (execFault f) (w, some (n + 1)) =
      ((.error (.io f.error), journal), w₂.closeFd w.fds, none) := by
    rw [compact, if_neg hshort]
    refine (Prog.run_step (execFault_succ hopen)).trans ?_
    refine (Prog.run_seq hwrite).trans ?_
    exact Prog.run_step (execFault_none ..)
  rw [hrun]
  refine .unchanged ?_ ((h.beside_temp hpt htemp ho hsame).1.closeFd hfile)
  rw [renameOp]
  omega

/-- No operation on the temporary file fails: what comes behind its closing is the installation. -/
theorem compact_installs (h : Live w journal i bs) (hpt : journal.tempPath ≠ journal.path)
    (htemp : w.dir journal.tempPath ≠ some i) (epochMs : UInt64) :
    ∃ file i' v w₂ w₃, Live v journal i bs ∧ v.dir journal.tempPath ≠ some i ∧
      Installation journal (journal.snapshot epochMs) file i' v w₂ w₃ ∧
      (journal.compact epochMs).run (execFault f)
        (w, some (2 * journal.maxRetainedEntries + 3)) =
          ((.ok (), { journal with file }), w₃, none) ∧
      ∀ m, (journal.compact epochMs).run (execFault f)
        (w, some (renameOp journal.maxRetainedEntries + m)) =
          journal.install.run (execFault f) (v, some m) := by
  obtain ⟨t, w₁, hopen, ho⟩ := exec_openFile w journal.tempPath true true (.inl rfl)
  have hsnapshot := writeSnapshot_fallible (f := f) (i := t) w.fds epochMs journal.retained
  rw [length_retained hshort] at hsnapshot
  obtain ⟨w₂, hwrite, hat, hsame⟩ := hsnapshot.done w₁ ho.openAt
  obtain ⟨hbeside, hit⟩ := h.beside_temp hpt htemp ho hsame
  have hlive := hbeside.closeFd (Nat.ne_of_lt (w.handles_lt h.openAt.handle))
  have htempDir : (w₂.closeFd w.fds).dir journal.tempPath = some t := by
    rw [dir_closeFd, hsame.dir, ho.entry]
  obtain ⟨file, i', w₃, w₄, H⟩ :=
    exists_installation hlive.openAt.handle hlive.locked htempDir hat.content
  refine ⟨file, i', _, w₃, w₄, hlive, ?_, H, ?_, fun m => ?_⟩
  · rw [htempDir]
    exact fun heq => hit (Option.some.inj heq).symm
  · rw [compact, if_neg hshort]
    refine (Prog.run_step (execFault_succ hopen)).trans ?_
    refine (Prog.run_seq (hwrite 0)).trans ?_
    refine (Prog.run_step (execFault_zero ..)).trans ?_
    refine (run_execFault_none ..).trans ?_
    exact congrArg (fun r => (r.1, r.2, none)) H.run
  · have hn : renameOp journal.maxRetainedEntries + m =
        2 * journal.maxRetainedEntries + 2 + (m + 1) + 1 := by
      rw [renameOp]
      omega
    rw [hn, compact, if_neg hshort]
    refine (Prog.run_step (execFault_succ hopen)).trans ?_
    refine (Prog.run_seq (hwrite (m + 1))).trans ?_
    exact Prog.run_step (execFault_succ (exec_close ..))

end

/-- The operations of a compaction: the opening of the temporary file, the others on it up to its
closing, and those of the installation. -/
theorem operation_cases (max n : Nat) :
    n = 0 ∨ (∃ m, n = m + 1 ∧ m < 2 * max + 2) ∨ n = 2 * max + 3 ∨ ∃ m, n = renameOp max + m := by
  rcases n with _ | n
  · exact .inl rfl
  rcases lt_trichotomy n (2 * max + 2) with hlt | rfl | hgt
  · exact .inr (.inl ⟨n, rfl, hlt⟩)
  · exact .inr (.inr (.inl rfl))
  · have hle : renameOp max ≤ n + 1 := Nat.succ_le_succ hgt
    exact .inr (.inr (.inr (Nat.exists_eq_add_of_le hle)))

theorem compact_outcome (h : Live w journal i bs) (hpt : journal.tempPath ≠ journal.path)
    (htemp : w.dir journal.tempPath ≠ some i) (epochMs : UInt64) (n : Nat) :
    Outcome f journal i bs (journal.snapshot epochMs) n
      ((journal.compact epochMs).run (execFault f) (w, some n)) := by
  by_cases hshort : journal.inner.timeline.length ≤ journal.maxRetainedEntries
  · rw [compact_short hshort]
    exact .done (.inl hshort)
  obtain ⟨file, i', v, w₂, w₃, hlive, htemp', H, hclose, hinstall⟩ :=
    compact_installs (f := f) hshort h hpt htemp epochMs
  obtain rfl | ⟨m, rfl, hm⟩ | rfl | ⟨m, rfl⟩ := operation_cases journal.maxRetainedEntries n
  · exact compact_outcome_zero h epochMs
  · exact compact_outcome_snapshot hshort h hpt htemp epochMs hm
  · -- the closing of the temporary file cannot fail
    rw [hclose]
    exact .done (.inr (.inl rfl))
  · rw [hinstall m]
    exact install_outcome hlive htemp' H m

theorem compact_fails (h : Live w journal i bs) (hpt : journal.tempPath ≠ journal.path)
    (htemp : w.dir journal.tempPath ≠ some i) (epochMs : UInt64) (hn : ¬Passes journal n) :
    ∃ journal' w', (journal.compact epochMs).run (execFault f) (w, some n) =
      ((.error (.io f.error), journal'), w', none) := by
  have houtcome := compact_outcome (f := f) h hpt htemp epochMs n
  generalize (journal.compact epochMs).run (execFault f) (w, some n) = r at houtcome ⊢
  cases houtcome with
  | done hpass => exact absurd hpass hn
  | unchanged => exact ⟨_, _, rfl⟩
  | stranded => exact ⟨_, _, rfl⟩
  | rewound => exact ⟨_, _, rfl⟩

/-! ## The calls that come later -/

/-- A record goes wherever the handle is. -/
theorem writeRecord_effect_at (e : HistoryEntry) (timestampMs : UInt64) :
    Effect (fun _ => True) file i pos bs (writeRecord file e.tag (e.encode timestampMs)) (.ok ())
      (pos + (Frame.ofEntry e timestampMs).bytes.length)
      (overwrite bs pos (Frame.ofEntry e timestampMs).bytes) := by
  let head := metaBytes e.tag (e.encode timestampMs).length (crc32 (e.encode timestampMs))
  have hbytes : (Frame.ofEntry e timestampMs).bytes = head ++ e.encode timestampMs := rfl
  have htwo : Effect (ε := JournalError) (fun _ => True) file i pos bs
      (do io (.writeAll file head); io (.writeAll file (e.encode timestampMs))) (.ok ())
      (pos + head.length + (e.encode timestampMs).length)
      (overwrite (overwrite bs pos head) (pos + head.length) (e.encode timestampMs)) :=
    (Effect.attempt_ok (acts_writeAll_at head) trivial trivial).bind
      (.attempt_ok (acts_writeAll_at _) trivial trivial)
  rw [overwrite_overwrite, Nat.add_assoc, ← List.length_append, ← hbytes] at htwo
  exact htwo.bind (.attempt_ok acts_flush trivial trivial)

theorem recordAll_openAt (h : w.OpenAt journal.file i pos bs) (hpos : pos ≤ bs.length)
    (calls : List Call) :
    ∃ inner w' pos', (journal.recordAll calls).run exec w = ((.ok (), { journal with inner }), w') ∧
      w'.OpenAt journal.file i pos' (overwrite bs pos (frameCode.encode (framesOf calls))) ∧
      SameBut journal.file i w w' := by
  induction calls generalizing w journal pos bs with
  | nil =>
    refine ⟨journal.inner, w, pos, rfl, ?_, .refl⟩
    rw [framesOf, List.map_nil, FrameCode.encode_nil, overwrite_nil hpos]
    exact h
  | cons call calls ih =>
    let bytes := (Frame.ofEntry call.entry call.timestampMs).bytes
    obtain ⟨⟨w₁, hrun, hat, hsame⟩, _⟩ :=
      writeRecord_effect_at call.entry call.timestampMs w h
    let journal₁ := { journal with inner := journal.inner.apply call.entry }
    have hrecord : (journal.record call.timestampMs call.entry).run exec w =
        ((.ok (), journal₁), w₁) := by
      rw [record_eq_commit]
      exact Prog.run_seq hrun
    have hpos' : pos + bytes.length ≤ (overwrite bs pos bytes).length := by
      simp only [overwrite, List.length_append, List.length_take]
      omega
    obtain ⟨inner, w', pos', hrun', hat', hsame'⟩ :=
      ih (show w₁.OpenAt journal₁.file i _ _ from hat) hpos'
    rw [overwrite_overwrite] at hat'
    exact ⟨inner, w', pos', (Prog.run_seq hrecord).trans hrun', hat', hsame.trans hsame'⟩

/-! ## The next opening -/

/-- Closing and opening the journal finds at least `es`, as the file format keeps them, and nothing
behind them. -/
def Finds (w : FileSystem Path) (journal : JournaledHistory) (max : Nat) (epochMs : UInt64)
    (es : List HistoryEntry) : Prop :=
  ∃ reopened w', (journal.reopen max epochMs).run exec w = (.ok reopened, w') ∧
    es.map (·.persisted) <:+ reopened.inner.timeline

variable {epochMs : UInt64} {es : List HistoryEntry}

theorem finds_iff_of_lookup (hlocked : (w.dir journal.path.lockPath).isSome)
    (hne : journal.path ≠ journal.path.lockPath)
    (h : w.lookup journal.path = some (image hd fs)) :
    Finds w journal max epochMs es ↔ es.map (·.persisted) <:+ entries fs := by
  rw [← List.append_nil (image hd fs)] at h
  obtain ⟨_, _, w', hreopen, _⟩ := reopen_ok max epochMs hlocked hne h frameCode.next_nil
  constructor
  · rintro ⟨_, _, hrun, hsuffix⟩
    cases hreopen.symm.trans hrun
    rwa [ReconcileHistory.timeline_ofEntries] at hsuffix
  · intro hsuffix
    refine ⟨_, w', hreopen, ?_⟩
    rwa [ReconcileHistory.timeline_ofEntries]

/-- A journal at its own lock path finds nothing. -/
theorem finds_iff_of_self (hlocked : (w.dir journal.path.lockPath).isSome)
    (hself : journal.path = journal.path.lockPath) :
    Finds w journal max epochMs es ↔ es = [] := by
  obtain ⟨_, w', hreopen⟩ := reopen_self max epochMs hlocked hself
  constructor
  · rintro ⟨_, _, hrun, hsuffix⟩
    cases hreopen.symm.trans hrun
    exact List.map_eq_nil_iff.mp (List.suffix_nil.mp hsuffix)
  · rintro rfl
    exact ⟨_, w', hreopen, List.nil_suffix⟩

/-- A file with a bad header is not opened. -/
theorem not_finds_of_error {e : JournalError} (hlocked : (w.dir journal.path.lockPath).isSome)
    (hne : journal.path ≠ journal.path.lockPath) (h : w.lookup journal.path = some bs)
    (hbs : bs ≠ []) (herr : headerError bs = some e) : ¬Finds w journal max epochMs es := by
  rintro ⟨_, _, hrun, _⟩
  obtain ⟨_, hreopen⟩ := reopen_refuses max epochMs hlocked hne h hbs herr
  cases hreopen.symm.trans hrun

/-- The calls return `Ok`, and `bs` is at the path behind them. -/
def CallsLeave (w : FileSystem Path) (journal : JournaledHistory) (calls : List Call)
    (bs : List UInt8) : Prop :=
  ∃ called w₁, (journal.recordAll calls).run exec w = ((.ok (), called), w₁) ∧
    called.path = journal.path ∧ (w₁.dir journal.path.lockPath).isSome ∧
    w₁.lookup journal.path = some bs

variable {calls : List Call}

theorem Live.callsLeave (h : Live w journal i (image hd fs)) (calls : List Call) :
    CallsLeave w journal calls (image hd (fs ++ framesOf calls)) := by
  obtain ⟨w₁, hrun, hlive, _⟩ := recordAll_ok h calls
  exact ⟨_, w₁, hrun, rfl, hlive.locked, hlive.openAt.lookup hlive.entry⟩

/-- The calls are written to the file that has been replaced. -/
theorem Stranded.callsLeave (h : Stranded w journal new) (calls : List Call) :
    CallsLeave w journal calls new := by
  obtain ⟨⟨i, bs, hdir, hat⟩, hlookup, hlocked⟩ := h
  obtain ⟨inner, w₁, _, hrun, _, hsame⟩ := recordAll_openAt hat (Nat.le_refl _) calls
  refine ⟨_, w₁, hrun, rfl, ?_, (hsame.lookup hdir).trans hlookup⟩
  rw [hsame.dir]
  exact hlocked

/-- The calls are written over the file from its start. -/
theorem Rewound.callsLeave (h : Rewound w journal new) (calls : List Call) :
    CallsLeave w journal calls (overwrite new 0 (frameCode.encode (framesOf calls))) := by
  obtain ⟨⟨i, hdir, hat⟩, hlocked⟩ := h
  obtain ⟨inner, w₁, _, hrun, hat', hsame⟩ := recordAll_openAt hat (Nat.zero_le _) calls
  refine ⟨_, w₁, hrun, rfl, ?_, hat'.lookup ?_⟩
  · rw [hsame.dir]
    exact hlocked
  · rw [hsame.dir, hdir]

theorem CallsLeave.finds_iff (h : CallsLeave w journal calls (image hd fs))
    (hne : journal.path ≠ journal.path.lockPath) :
    ∃ called w₁, (journal.recordAll calls).run exec w = ((.ok (), called), w₁) ∧
      (Finds w₁ called max epochMs es ↔ es.map (·.persisted) <:+ entries fs) := by
  obtain ⟨called, w₁, hrun, hpath, hlocked, hlookup⟩ := h
  rw [← hpath] at hne hlocked hlookup
  exact ⟨called, w₁, hrun, finds_iff_of_lookup hlocked hne hlookup⟩

theorem CallsLeave.not_finds {e : JournalError} (h : CallsLeave w journal calls bs)
    (hne : journal.path ≠ journal.path.lockPath) (hbs : bs ≠ []) (herr : headerError bs = some e) :
    ∃ called w₁, (journal.recordAll calls).run exec w = ((.ok (), called), w₁) ∧
      ¬Finds w₁ called max epochMs es := by
  obtain ⟨called, w₁, hrun, hpath, hlocked, hlookup⟩ := h
  rw [← hpath] at hne hlocked hlookup
  exact ⟨called, w₁, hrun, not_finds_of_error hlocked hne hlookup hbs herr⟩

theorem CallsLeave.finds_iff_of_self (h : CallsLeave w journal calls bs)
    (hself : journal.path = journal.path.lockPath) :
    ∃ called w₁, (journal.recordAll calls).run exec w = ((.ok (), called), w₁) ∧
      (Finds w₁ called max epochMs es ↔ es = []) := by
  obtain ⟨called, w₁, hrun, hpath, hlocked, _⟩ := h
  rw [← hpath] at hself hlocked
  exact ⟨called, w₁, hrun, Driftbrake.finds_iff_of_self hlocked hself⟩

/-! ## The failed compaction -/

theorem suffix_append_self_iff {α : Type} {as bs : List α} : as ++ bs <:+ as ↔ bs = [] := by
  constructor
  · intro h
    have hle := h.length_le
    rw [List.length_append] at hle
    exact List.length_eq_zero_iff.mp (by omega)
  · rintro rfl
    rw [List.append_nil]

/-- A record written over the header. -/
theorem headerError_overwrite (bs : List UInt8) (call : Call) (calls : List Call) :
    headerError (overwrite bs 0 (frameCode.encode (framesOf (call :: calls)))) =
      some .invalidMagic := by
  let frame := Frame.ofEntry call.entry call.timestampMs
  obtain ⟨more, hmore⟩ : ∃ more, overwrite bs 0 (frameCode.encode (framesOf (call :: calls))) =
      frame.bytes ++ more := by
    rw [framesOf, List.map_cons, FrameCode.encode_cons, overwrite, List.take_zero, List.nil_append,
      Nat.zero_sub, List.replicate_zero, List.nil_append, List.append_assoc]
    exact ⟨_, rfl⟩
  have hlen : 40 ≤ frame.payload.length := by
    rcases frame.parsed with ⟨_, h⟩ | ⟨_, h⟩ <;> omega
  have hbytes : frame.bytes.length = 9 + frame.payload.length := by
    rw [Frame.bytes, List.length_append, length_metaBytes]
  have hmagic : (frame.bytes ++ more).take 4 ≠ magic := by
    intro h
    have htag : frame.tag = 0x44 := (List.cons.inj h).1
    rcases frame.parsed with ⟨h, _⟩ | ⟨h, _⟩ <;> rw [htag] at h <;> cases h
  rw [hmore, headerError, if_neg, if_pos hmagic]
  rw [List.length_append]
  omega

theorem ne_nil_of_invalidMagic (h : headerError bs = some .invalidMagic) : bs ≠ [] := by
  rintro rfl
  cases h

section
variable (hne : journal.path ≠ journal.path.lockPath)
include hne

theorem Live.finds_calls (h : Live w journal i (image hd fs))
    (hes : es.map (·.persisted) <:+ entries fs) (calls : List Call) :
    ∃ called w₁, (journal.recordAll calls).run exec w = ((.ok (), called), w₁) ∧
      Finds w₁ called max epochMs (es ++ calls.map (·.entry)) := by
  obtain ⟨called, w₁, hrun, hfinds⟩ := (h.callsLeave calls).finds_iff hne
  refine ⟨called, w₁, hrun, hfinds.mpr ?_⟩
  obtain ⟨dropped, hdropped⟩ := hes
  refine ⟨dropped, ?_⟩
  rw [entries_append, entries_framesOf, ← hdropped, List.map_append, List.map_map,
    List.append_assoc]
  rfl

variable (hes : entries fs = es.map (·.persisted))
include hes

theorem Stranded.finds_calls_iff (h : Stranded w journal (image hd fs)) (calls : List Call) :
    ∃ called w₁, (journal.recordAll calls).run exec w = ((.ok (), called), w₁) ∧
      (Finds w₁ called max epochMs (es ++ calls.map (·.entry)) ↔ calls = []) := by
  obtain ⟨called, w₁, hrun, hfinds⟩ := (h.callsLeave calls).finds_iff hne
  refine ⟨called, w₁, hrun, hfinds.trans ?_⟩
  rw [hes, List.map_append, suffix_append_self_iff, List.map_eq_nil_iff, List.map_eq_nil_iff]

theorem Rewound.finds_calls_iff (h : Rewound w journal (image hd fs)) (calls : List Call) :
    ∃ called w₁, (journal.recordAll calls).run exec w = ((.ok (), called), w₁) ∧
      (Finds w₁ called max epochMs (es ++ calls.map (·.entry)) ↔ calls = []) := by
  cases calls with
  | nil =>
    have hleave := h.callsLeave []
    rw [framesOf, List.map_nil, FrameCode.encode_nil, overwrite_nil (Nat.zero_le _)] at hleave
    obtain ⟨called, w₁, hrun, hfinds⟩ := hleave.finds_iff hne
    refine ⟨called, w₁, hrun, iff_of_true (hfinds.mpr ?_) rfl⟩
    rw [hes, List.map_nil, List.append_nil]
  | cons call calls =>
    have herr := headerError_overwrite (image hd fs) call calls
    obtain ⟨called, w₁, hrun, hnot⟩ :=
      (h.callsLeave (call :: calls)).not_finds hne (ne_nil_of_invalidMagic herr) herr
    exact ⟨called, w₁, hrun, iff_of_false hnot (List.cons_ne_nil _ _)⟩

end

/-- When a failed compaction does no harm: before the file has been replaced, or when no call comes
later. A journal with the path of its own temporary file is emptied when that is opened, and one
at its own lock path loses everything anyway. -/
def Harmless (path : Path) (max n : Nat) (l : Ledger) (calls : List Call) : Prop :=
  if path.extension = some lockExtension then
    l.acknowledged.rtake max ++ calls.map (·.entry) = []
  else
    (path.extension = some compactExtension → n = 0) ∧ (n ≤ renameOp max ∨ calls = [])

/-- The snapshot holds the last entries that were acknowledged. -/
theorem LedgerInUse.entries_snapshot {m : List HistoryEntry}
    (h : LedgerInUse path max w journal l i hd fs m) (H : LedgerRun path max w (some journal) l)
    (hpath : path.extension ≠ some lockExtension) :
    entries (snapshotFrames journal.retained) =
      (l.acknowledged.rtake max).map (·.persisted) := by
  rw [entries_snapshotFrames, retained, h.memory, ReconcileHistory.timeline_ofEntries, h.max_eq,
    map_rtake, h.mem hpath, ← map_rtake, H.covers.1.rtake_eq]

/-- The file holds them, too. -/
theorem LedgerInUse.suffix_entries {m : List HistoryEntry}
    (h : LedgerInUse path max w journal l i hd fs m) (H : LedgerRun path max w (some journal) l)
    (hpath : path.extension ≠ some lockExtension) :
    (l.acknowledged.rtake max).map (·.persisted) <:+ entries fs := by
  rw [h.disk hpath, ← H.covers.2.rtake_eq, map_rtake]
  exact rtake_suffix _ _

theorem LedgerInUse.outcome {m : List HistoryEntry}
    (h : LedgerInUse path max w journal l i hd fs m)
    (hcompact : path.extension = some compactExtension → n = 0) (epochMs : UInt64) :
    Outcome f journal i (image hd fs) (journal.snapshot epochMs) n
      ((journal.compact epochMs).run (execFault f) (w, some n)) := by
  obtain ⟨rfl, _, hlive, htemp, _⟩ := h
  by_cases hpt : journal.tempPath = journal.path
  · obtain rfl := hcompact ((Path.withExtension_eq_self_iff (by decide)).mp hpt)
    exact compact_outcome_zero hlive epochMs
  · exact compact_outcome hlive hpt (htemp hpt i hlive.entry) epochMs n

/-- What the next opening finds, unless the journal is its own temporary file. -/
theorem failed_compact_finds (H : LedgerRun path max w (some journal) l)
    (hcompact : path.extension = some compactExtension → n = 0) {e : JournalError}
    {room : Option Nat} (hfail : (journal.compact epochMs).run (execFault f) (w, some n) =
      ((.error e, journal'), w', room))
    (calls : List Call) (max' : Nat) (epochMs' : UInt64) :
    ∃ called w₁, (journal'.recordAll calls).run exec w' = ((.ok (), called), w₁) ∧
      (Finds w₁ called max' epochMs' (l.acknowledged.rtake max ++ calls.map (·.entry)) ↔
        Harmless path max n l calls) := by
  obtain ⟨i, hd, fs, m, h⟩ := H.inv
  have houtcome := h.outcome (f := f) hcompact epochMs
  have hsnapshot := h.entries_snapshot H
  have hdisk := h.suffix_entries H
  obtain ⟨rfl, rfl, _⟩ := h
  rw [hfail] at houtcome
  by_cases hlock : journal.path.extension = some lockExtension
  · have hself := eq_lockPath_iff.mpr hlock
    rw [Harmless, if_pos hlock]
    cases houtcome with
    | unchanged _ h => exact (h.callsLeave calls).finds_iff_of_self hself
    | stranded _ h => exact (h.callsLeave calls).finds_iff_of_self hself
    | rewound _ h => exact (h.callsLeave calls).finds_iff_of_self hself
  rw [Harmless, if_neg hlock, and_iff_right hcompact]
  have hne := ne_lockPath_iff.mpr hlock
  cases houtcome with
  | unchanged hn h =>
    obtain ⟨called, w₁, hrun, hfinds⟩ := h.finds_calls hne (hdisk hlock) calls
    exact ⟨called, w₁, hrun, iff_of_true hfinds (.inl hn)⟩
  | stranded hn h =>
    rw [or_iff_right (Nat.not_le.mpr hn)]
    exact h.finds_calls_iff hne (hsnapshot hlock) calls
  | rewound hn h =>
    rw [or_iff_right (Nat.not_le.mpr hn)]
    refine h.finds_calls_iff ?_ (hsnapshot hlock) calls
    exact hne

/-- **A failed compaction leaves a working journal** if it has failed before the file was replaced
or no call comes later: these calls return `Ok`, and the next opening finds them behind the last
acknowledged entries. Otherwise they return `Ok` and are lost. -/
theorem failed_compact_keeps (H : LedgerRun path max w (some journal) l) {e : JournalError}
    {room : Option Nat} (hfail : (journal.compact epochMs).run (execFault f) (w, some n) =
      ((.error e, journal'), w', room))
    (calls : List Call) (max' : Nat) (epochMs' : UInt64) :
    (Harmless path max n l calls → ∃ called w₁,
      (journal'.recordAll calls).run exec w' = ((.ok (), called), w₁) ∧
        Finds w₁ called max' epochMs' (l.acknowledged.rtake max ++ calls.map (·.entry))) ∧
    (¬Harmless path max n l calls → (path.extension = some compactExtension → n = 0) →
      ∃ called w₁, (journal'.recordAll calls).run exec w' = ((.ok (), called), w₁) ∧
        ¬Finds w₁ called max' epochMs' (l.acknowledged.rtake max ++ calls.map (·.entry))) := by
  constructor
  · intro hharmless
    have hcompact : path.extension = some compactExtension → n = 0 := by
      rw [Harmless] at hharmless
      split at hharmless
      · rename_i hlock
        intro hext
        cases hlock.symm.trans hext
      · exact hharmless.1
    obtain ⟨called, w₁, hrun, hiff⟩ :=
      failed_compact_finds H hcompact hfail calls max' epochMs'
    exact ⟨called, w₁, hrun, hiff.mpr hharmless⟩
  · intro hharm hcompact
    obtain ⟨called, w₁, hrun, hiff⟩ :=
      failed_compact_finds H hcompact hfail calls max' epochMs'
    exact ⟨called, w₁, hrun, mt hiff.mp hharm⟩

/-- Two trades, of which a compaction keeps the last. -/
def twoTrades : Ledger :=
  ⟨[.trade 100 90, .trade 100 95], [.trade 100 90, .trade 100 95], [.trade 100 90, .trade 100 95]⟩

theorem exists_compact_fails (f : Failure) {n : Nat} (hn : n ≠ 5 ∧ n ≠ 8 ∧ n < 10) :
    ∃ w journal journal' w', LedgerRun driftJournal 1 w (some journal) twoTrades ∧
      (journal.compact 0).run (execFault f) (w, some n) =
        ((.error (.io f.error), journal'), w', none) := by
  obtain ⟨w, journal, H⟩ :=
    exists_ledgerRun driftJournal 1 [⟨0, .trade 100 90⟩, ⟨0, .trade 100 95⟩]
  obtain ⟨i, hd, fs, m, hpath, hmax, hlive, htemp, hmemory, hmem, _⟩ := H.inv
  have hlength : m.length = 2 := by simpa using congrArg List.length (hmem driftJournal_ne_lock)
  have hpt : journal.tempPath ≠ journal.path := by
    rw [tempPath, hpath]
    exact driftJournal_tempPath_ne
  have hpass : ¬Passes journal n := by
    rw [Passes, hmax, hmemory, ReconcileHistory.timeline_ofEntries, hlength, renameOp]
    omega
  have hfree : w.dir journal.tempPath ≠ some i := by
    rw [tempPath, hpath]
    exact htemp driftJournal_tempPath_ne i (hpath ▸ hlive.entry)
  obtain ⟨journal', w', hrun⟩ := compact_fails hlive hpt hfree 0 hpass
  exact ⟨w, journal, journal', w', H, hrun⟩

/-- The rename fails. -/
theorem failed_compact_keeps_rename : ∃ w journal journal' w' called w₁,
    LedgerRun driftJournal 1 w (some journal) twoTrades ∧
      (journal.compact 0).run (execFault ⟨.notFound, 0⟩) (w, some 6) =
        ((.error (.io .notFound), journal'), w', none) ∧
      (journal'.recordAll [⟨0, .trade 100 80⟩]).run exec w' = ((.ok (), called), w₁) ∧
      Finds w₁ called 1 0 [.trade 100 95, .trade 100 80] := by
  obtain ⟨w, journal, journal', w', H, hfail⟩ :=
    exists_compact_fails ⟨.notFound, 0⟩ (n := 6) (by decide)
  have hharmless : Harmless driftJournal 1 6 twoTrades [⟨0, .trade 100 80⟩] := by
    rw [Harmless, if_neg driftJournal_ne_lock]
    exact ⟨fun hext => absurd hext driftJournal_ne_compact, .inl (Nat.le_refl 6)⟩
  obtain ⟨called, w₁, hrun, hfinds⟩ :=
    (failed_compact_keeps H hfail [⟨0, .trade 100 80⟩] 1 0).1 hharmless
  exact ⟨w, journal, journal', w', called, w₁, H, hfail, hrun, hfinds⟩

/-- The reopening fails: the trade recorded next is acknowledged and lost. -/
theorem not_failed_compact_keeps_reopen : ∃ w journal journal' w' called w₁,
    LedgerRun driftJournal 1 w (some journal) twoTrades ∧
      (journal.compact 0).run (execFault ⟨.notFound, 0⟩) (w, some 7) =
        ((.error (.io .notFound), journal'), w', none) ∧
      (journal'.recordAll [⟨0, .trade 100 80⟩]).run exec w' = ((.ok (), called), w₁) ∧
      ¬Finds w₁ called 1 0 [.trade 100 95, .trade 100 80] := by
  obtain ⟨w, journal, journal', w', H, hfail⟩ :=
    exists_compact_fails ⟨.notFound, 0⟩ (n := 7) (by decide)
  have hcompact : driftJournal.extension = some compactExtension → 7 = 0 := fun hext =>
    absurd hext driftJournal_ne_compact
  obtain ⟨called, w₁, hrun, hiff⟩ :=
    failed_compact_finds H hcompact hfail [⟨0, .trade 100 80⟩] 1 0
  refine ⟨w, journal, journal', w', called, w₁, H, hfail, hrun, fun hfinds => ?_⟩
  have hharmless := hiff.mp hfinds
  rw [Harmless, if_neg driftJournal_ne_lock] at hharmless
  rcases hharmless.2 with hn | hnil
  · exact absurd hn (Nat.not_succ_le_self 6)
  · cases hnil

end Driftbrake
