import Driftbrake.Core.Machine
import Driftbrake.Journal.Compact
import Driftbrake.Journal.Lifetime
import Driftbrake.Reconcile.Retention

/-!
# The guards across a compaction and a restart

`CompactRestart path max before after` is a run of the journal from `before`, the memory that the
calls of any number of sessions have led to, over `compact`, a close and an opening to the memory
`after`. What is found again are the last `max` entries (`CompactRestart.spec`). The guards count
pairs, not entries, so the policy may halt on `before` and not on `after`;
`compactRestart_halts_iff` says when it does not, in every arithmetic.
-/

namespace Driftbrake

open FileSystem

open HistoryEntry (withoutReason)

open JournaledHistory (Call)

inductive CompactRestart (path : Path) (max : Nat) : ReconcileHistory → ReconcileHistory → Prop
  | run (calls : List Call) : AfterSessions path w es →
    (openOrCreate path max epochMs).run exec w = (.ok journal, w₁) →
    (journal.recordAll calls).run exec w₁ = ((.ok (), called), w₂) →
    (called.compact epochMs').run exec w₂ = ((.ok (), compacted), w₃) →
    (compacted.reopen max' epochMs'').run exec w₃ = (.ok reopened, w₄) →
    CompactRestart path max called.inner reopened.inner

/-- What a compaction and a restart leave of a memory: its last entries, but for the reasons that
the file format cannot hold. A journal that takes its own file for the lock file loses all. -/
def Kept (path : Path) (max : Nat) (es kept : List HistoryEntry) : Prop :=
  if path.extension = some lockExtension then kept = []
  else kept.map withoutReason = (es.rtake max).map withoutReason

variable {w : FileSystem Path} {path : Path} {journal : JournaledHistory} {i : Nat} {hd : Header}
  {fs : List Frame} {es es' kept : List HistoryEntry} {max : Nat}

@[simp] theorem withoutReason_persisted (e : HistoryEntry) :
    e.persisted.withoutReason = e.withoutReason := by
  cases e <;> rfl

theorem map_withoutReason_persisted (es : List HistoryEntry) :
    (es.map (·.persisted)).map withoutReason = es.map withoutReason := by
  rw [List.map_map]
  exact List.map_congr_left fun e _ => withoutReason_persisted e

/-! ## The steps of the run -/

/-- A journal at its own lock path that is not there is not locked. -/
theorem unlocked_of_lookup_eq_none (hp : path = path.lockPath) (h : w.lookup path = none) :
    Unlocked w path := by
  rw [Unlocked, ← hp]
  exact lookup_eq_none_iff.mp h

/-- A journal at its own lock path is gone between two sessions. -/
theorem AfterSessions.lookup_eq_none (H : AfterSessions path w es) (hp : path = path.lockPath) :
    w.lookup path = none := by
  induction H with
  | start hnone _ => exact hnone
  | @session w _ _ w₁ journal' w₂ w₃ s _ hopen hcalls hend ih =>
    obtain ⟨i, w₁, hopen', hlive, _⟩ := openOrCreate_new s.maxRetainedEntries s.epochMs
      (unlocked_of_lookup_eq_none hp ih) (contentAt_of_none ih)
    cases hopen.symm.trans hopen'
    obtain ⟨w₂, hcalls', hlive', _⟩ := recordAll_ok hlive s.calls
    cases hcalls.symm.trans hcalls'
    obtain ⟨w₃, hend', hunlocked', _⟩ := finish_ok hlive' s.ending
    cases hend.symm.trans hend'
    refine lookup_eq_none_iff.mpr ?_
    rw [Unlocked] at hunlocked'
    exact hp ▸ hunlocked'

/-- The next session opens a journal with the entries of its file, whatever the path. -/
theorem AfterSessions.open_ok (H : AfterSessions path w es) (max : Nat) (epochMs : UInt64) :
    ∃ i w' hd fs, (openOrCreate path max epochMs).run exec w =
        (.ok ⟨.ofEntries (entries fs), w.fds, path, max⟩, w') ∧
      Live w' ⟨.ofEntries (entries fs), w.fds, path, max⟩ i (image hd fs) ∧ Unlinked w' path := by
  by_cases hne : path = path.lockPath
  · have hnone := H.lookup_eq_none hne
    obtain ⟨i, w', hrun, hlive, ho, _⟩ := openOrCreate_new max epochMs
      (unlocked_of_lookup_eq_none hne hnone) (contentAt_of_none hnone)
    refine ⟨i, w', .new epochMs, [], hrun, hlive, fun {q} hq hql j hj => ?_⟩
    cases hj.symm.trans hlive.entry
    refine ho.unlinked hq hql fun j hj => ?_
    rw [lookup_eq_none_iff.mp hnone] at hj
    cases hj
  · obtain ⟨i, w', hd, fs, hrun, hlive, hunlinked, hentries, _⟩ :=
      (H.stored hne).open_ok max epochMs
    rw [← hentries] at hrun hlive
    exact ⟨i, w', hd, fs, hrun, hlive, hunlinked⟩

/-- After a compaction the file holds the last entries of the memory. -/
theorem compact_frames (h : Live w journal i (image hd fs)) (hunlinked : Unlinked w journal.path)
    (hmem : journal.inner = .ofEntries es)
    (hsame : (entries fs).map withoutReason = es.map withoutReason) (epochMs : UInt64) :
    ∃ i' file w' hd' fs', (journal.compact epochMs).run exec w =
        ((.ok (), { journal with file }), w') ∧
      Live w' { journal with file } i' (image hd' fs') ∧
      (entries fs').map withoutReason =
        (es.rtake journal.maxRetainedEntries).map withoutReason := by
  have htimeline : journal.inner.timeline = es := by rw [hmem, ReconcileHistory.timeline_ofEntries]
  by_cases hshort : es.length ≤ journal.maxRetainedEntries
  · refine ⟨i, journal.file, w, hd, fs, ?_, h, ?_⟩
    · rw [compact_short (by rw [htimeline]; exact hshort)]
      rfl
    · rw [hsame, rtake_of_length_le hshort]
  · have htemp : journal.tempPath ≠ journal.path → w.dir journal.tempPath ≠ some i := fun hq =>
      hunlinked hq (tempPath_ne_lockPath journal) i h.entry
    obtain ⟨i', file, w', hrun, hlive, _⟩ :=
      compact_ok h epochMs (by rw [htimeline]; omega) htemp
    refine ⟨i', file, w', _, _, hrun, hlive, ?_⟩
    rw [entries_snapshotFrames, map_withoutReason_persisted, JournaledHistory.retained, htimeline]

/-- A close and an opening find the entries of the file, or nothing at the path of the lock. -/
theorem reopen_frames (h : Live w journal i (image hd fs)) (max : Nat) (epochMs : UInt64) :
    ∃ reopened w', (journal.reopen max epochMs).run exec w = (.ok reopened, w') ∧
      reopened.inner = if journal.path.extension = some lockExtension then .ofEntries []
        else .ofEntries (entries fs) := by
  by_cases hp : journal.path.extension = some lockExtension
  · obtain ⟨fd, w', hrun⟩ := reopen_self max epochMs h.locked (eq_lockPath_iff.mpr hp)
    refine ⟨_, w', hrun, ?_⟩
    rw [if_pos hp]
    rfl
  · rw [← List.append_nil (image hd fs)] at h
    obtain ⟨_, fd, w', hrun, _⟩ :=
      reopen_ok max epochMs h.locked (ne_lockPath_iff.mpr hp) h.lookup frameCode.next_nil
    exact ⟨_, w', hrun, (if_neg hp).symm⟩

/-! ## The run -/

/-- The run goes through from every state between sessions, for all calls. -/
theorem AfterSessions.compactRestart (H : AfterSessions path w es) (max : Nat)
    (epochMs : UInt64) (calls : List Call) (epochMs' : UInt64) (max' : Nat) (epochMs'' : UInt64) :
    ∃ found kept journal w₁ called w₂ compacted w₃ reopened w₄,
      (openOrCreate path max epochMs).run exec w = (.ok journal, w₁) ∧
      (journal.recordAll calls).run exec w₁ = ((.ok (), called), w₂) ∧
      (called.compact epochMs').run exec w₂ = ((.ok (), compacted), w₃) ∧
      (compacted.reopen max' epochMs'').run exec w₃ = (.ok reopened, w₄) ∧
      journal.inner = .ofEntries found ∧
      called.inner = .ofEntries (found ++ calls.map (·.entry)) ∧ reopened.inner = .ofEntries kept ∧
      Kept path max (found ++ calls.map (·.entry)) kept := by
  obtain ⟨i, w₁, hd, fs, hopen, hlive, hunlinked⟩ := H.open_ok max epochMs
  obtain ⟨w₂, hcalls, hlive, hdir⟩ := recordAll_ok hlive calls
  have hmem := ReconcileHistory.foldl_apply_ofEntries (entries fs) (calls.map (·.entry))
  have hsame : (entries (fs ++ framesOf calls)).map withoutReason =
      (entries fs ++ calls.map (·.entry)).map withoutReason := by
    rw [entries_append, entries_framesOf, List.map_append, List.map_append, List.map_map,
      List.map_map]
    congr 1
    exact List.map_congr_left fun call _ => withoutReason_persisted call.entry
  have hunlinked₂ : Unlinked w₂ path := by rwa [Unlinked, hdir]
  obtain ⟨i', file, w₃, hd', fs', hcompact, hlive', hkept⟩ :=
    compact_frames hlive hunlinked₂ hmem hsame epochMs'
  obtain ⟨reopened, w₄, hreopen, hfound⟩ := reopen_frames hlive' max' epochMs''
  refine ⟨entries fs, if path.extension = some lockExtension then [] else entries fs', _, w₁, _, w₂,
    _, w₃, reopened, w₄, hopen, hcalls, hcompact, hreopen, rfl, hmem, ?_, ?_⟩
  · rw [hfound, apply_ite ReconcileHistory.ofEntries]
  · rw [Kept]
    split
    · rfl
    · exact hkept

theorem CompactRestart.spec {before after : ReconcileHistory}
    (H : CompactRestart path max before after) :
    ∃ es kept, before = .ofEntries es ∧ after = .ofEntries kept ∧ Kept path max es kept := by
  cases H with
  | run calls hafter hopen hcalls hcompact hreopen =>
    obtain ⟨found, kept, _, _, _, _, _, _, _, _, hopen', hcalls', hcompact', hreopen', _, hbefore,
      hfound, hkept⟩ := hafter.compactRestart max _ calls _ _ _
    cases hopen.symm.trans hopen'
    cases hcalls.symm.trans hcalls'
    cases hcompact.symm.trans hcompact'
    cases hreopen.symm.trans hreopen'
    exact ⟨_, kept, hbefore, hfound, hkept⟩

/-- The run with one session, that finds no file. -/
theorem exists_compactRestart (path : Path) (max : Nat) (calls : List Call) :
    ∃ kept, CompactRestart path max (.ofEntries (calls.map (·.entry))) (.ofEntries kept) ∧
      Kept path max (calls.map (·.entry)) kept := by
  have hunlocked : Unlocked (FileSystem.empty : FileSystem Path) path := rfl
  have hafter : AfterSessions path FileSystem.empty [] := .start rfl hunlocked
  obtain ⟨found, kept, journal, w₁, called, w₂, compacted, w₃, reopened, w₄, hopen, hcalls,
    hcompact, hreopen, hinner, hbefore, hfound, hkept⟩ := hafter.compactRestart max 0 calls 0 max 0
  obtain ⟨_, _, hopen', _⟩ := openOrCreate_new max 0 hunlocked rfl
  cases hopen.symm.trans hopen'
  have hnil : found = [] := by
    rw [← ReconcileHistory.timeline_ofEntries found, ← hinner]
    rfl
  rw [hnil, List.nil_append] at hbefore hkept
  have H := CompactRestart.run calls hafter hopen hcalls hcompact hreopen
  rw [hbefore, hfound] at H
  exact ⟨kept, H, hkept⟩

/-! ## The guards -/

namespace ReconcilePolicy

variable {F : Type} {p : ReconcilePolicy F} {A : Arith F} {before after : ReconcileHistory}

/-- The policy halts on what is kept when a retained guard trips on all entries and no retained
guard before it panics. -/
theorem halts_kept_iff (hp : p.Fits max) (h : Kept path max es kept) :
    p.Halts A (.ofEntries kept) ↔
      path.extension ≠ some lockExtension ∧ p.TripsAmong A es (p.Retained max es) := by
  rw [Kept] at h
  split at h
  case isTrue hlock =>
    subst h
    rw [halts_iff_tripsAmong]
    refine iff_of_false ?_ fun hc => hc.1 hlock
    rintro ⟨_, g, _, _, _, htrips, _⟩
    exact not_tripsOn_nil p A g htrips
  case isFalse hlock =>
    rw [halts_iff_tripsAmong, tripsAmong_congr h, tripsAmong_rtake_iff hp]
    exact (and_iff_right hlock).symm

/-- **The policy halts after a compaction and a restart exactly when it halted before**, in any
arithmetic, if and only if two things are the same of the memory before: that a guard trips with no
panic of a guard before it, and that the journal's path is not its own lock path and a guard trips
so among those whose window lies in the entries that the compaction keeps. -/
theorem compactRestart_halts_iff (hp : p.Fits max) (H : CompactRestart path max before after) :
    (p.Halts A after ↔ p.Halts A before) ↔
      (p.TripsAmong A before.timeline (fun _ => True) ↔
        path.extension ≠ some lockExtension ∧
          p.TripsAmong A before.timeline (p.Retained max before.timeline)) := by
  obtain ⟨es, kept, rfl, rfl, hkept⟩ := H.spec
  rw [halts_kept_iff hp hkept, halts_iff_tripsAmong, ReconcileHistory.timeline_ofEntries]
  exact ⟨Iff.symm, Iff.symm⟩

/-- The calls for some entries. -/
def callsFor (es : List HistoryEntry) : List Call := es.map (⟨0, ·⟩)

theorem map_entry_callsFor (es : List HistoryEntry) : (callsFor es).map (·.entry) = es := by
  rw [callsFor, List.map_map]
  exact List.map_id es

def badTrades : List HistoryEntry := List.replicate 3 (.trade 100 10)

def reverts : List HistoryEntry := List.replicate 20 (.revert 21000 30)

theorem defaultDualGuardF64_fits : defaultDualGuardF64.Fits 20 where
  fast := by decide
  slow := by decide
  revertBurst := nofun
  revertGas := nofun
  volumeWeighted := nofun
  drawdown := nofun

/-- The shipped guards halt on the fast one, if its condition holds and it is in `S`. -/
theorem tripsAmong_defaultDualGuardF64 {A : Arith Float} {S : Guard → Prop} (hS : S .fast)
    (h : defaultDualGuardF64.TripsOn A es .fast) : defaultDualGuardF64.TripsAmong A es S := by
  refine ⟨[.revertBurst, .revertGas], .fast, [.drawdown, .volumeWeighted, .slow], rfl, hS, h, ?_⟩
  rintro g hg _ hpanics
  cases g with
  | revertGas =>
    obtain ⟨_, hno, _⟩ := hpanics
    cases hno
  | revertBurst => exact hpanics
  | fast | drawdown | volumeWeighted | slow => simp at hg

/-- Twenty reverts and three bad trades, cut to twenty entries: the trades are kept. -/
theorem compactRestart_halts_trades_last : ∃ before after,
    CompactRestart driftJournal 20 before after ∧ before.timeline = reverts ++ badTrades ∧
      defaultDualGuardF64.Halts (Arith.f64 true) after := by
  obtain ⟨kept, H, _⟩ := exists_compactRestart driftJournal 20 (callsFor (reverts ++ badTrades))
  rw [map_entry_callsFor] at H
  have hbefore : defaultDualGuardF64.Halts (Arith.f64 true)
      (.ofEntries (reverts ++ badTrades)) := by
    decide +kernel
  have hfast : defaultDualGuardF64.TripsOn (Arith.f64 true) (reverts ++ badTrades) .fast :=
    ⟨by decide +kernel, by decide +kernel⟩
  refine ⟨_, _, H, ReconcileHistory.timeline_ofEntries _, ?_⟩
  have hiff := compactRestart_halts_iff (A := Arith.f64 true) defaultDualGuardF64_fits H
  rw [ReconcileHistory.timeline_ofEntries] at hiff
  have hretained : defaultDualGuardF64.Retained 20 (reverts ++ badTrades) .fast :=
    show 3 ≤ _ by decide +kernel
  refine (hiff.mpr (iff_of_true ?_ ⟨by decide, ?_⟩)).mpr hbefore
  · exact tripsAmong_defaultDualGuardF64 (S := fun _ => True) trivial hfast
  · exact tripsAmong_defaultDualGuardF64 hretained hfast

/-- Three bad trades and twenty reverts, cut to twenty entries: the fast guard has lost its
window. -/
theorem compactRestart_disarms_trades_first : ∃ before after,
    CompactRestart driftJournal 20 before after ∧ defaultDualGuardF64.Fits 20 ∧
      defaultDualGuardF64.Halts (Arith.f64 true) before ∧
      ¬defaultDualGuardF64.Halts (Arith.f64 true) after := by
  obtain ⟨kept, H, hkept⟩ := exists_compactRestart driftJournal 20 (callsFor (badTrades ++ reverts))
  rw [map_entry_callsFor] at H hkept
  have hbefore : defaultDualGuardF64.Halts (Arith.f64 true)
      (.ofEntries (badTrades ++ reverts)) := by
    decide +kernel
  refine ⟨_, _, H, defaultDualGuardF64_fits, hbefore, fun hafter => ?_⟩
  obtain ⟨_, _, g, _, _, hretained, htrips, _⟩ :=
    (halts_kept_iff defaultDualGuardF64_fits hkept).mp hafter
  cases g with
  | revertBurst => obtain ⟨_, hno, _⟩ := htrips; cases hno
  | revertGas => obtain ⟨_, hno, _⟩ := htrips; cases hno
  | fast => exact absurd hretained (show ¬3 ≤ _ by decide +kernel)
  | drawdown => obtain ⟨_, hno, _⟩ := htrips; cases hno
  | volumeWeighted => obtain ⟨_, hno, _⟩ := htrips; cases hno
  | slow => exact absurd hretained (show ¬20 ≤ _ by decide +kernel)

end ReconcilePolicy

end Driftbrake
