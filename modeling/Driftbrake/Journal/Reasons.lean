import Driftbrake.Journal.Ledger

/-!
# What becomes of the reason of a revert

The encoder cuts a reason at 65535 bytes and writes its length, the decoder takes the length 0 for
no reason and bytes that are not UTF-8 for none either. So a reason survives just when there is
none, or it is not empty and not cut inside a character (`survivesAs_persisted_iff`), and this is
what `reason_survives_iff` says of the entries that a run has left on disk.
-/

namespace Driftbrake

open FileSystem

/-! ## Strings cut at a byte -/

theorem utf8_append (s t : String) : utf8 (s ++ t) = utf8 s ++ utf8 t := by
  simp [utf8]

theorem length_utf8 (s : String) : (utf8 s).length = s.utf8ByteSize := by
  simp [utf8]

/-- A character of the string starts at byte `n`, or the string ends there. -/
def CharBoundary (s : String) (n : Nat) : Prop := String.Pos.Raw.IsValid s ⟨n⟩

theorem charBoundary_iff {s : String} {n : Nat} :
    CharBoundary s n ↔ ∃ t rest, s = t ++ rest ∧ (utf8 t).length = n := by
  rw [CharBoundary, String.Pos.Raw.isValid_iff_exists_append]
  simp only [String.Pos.Raw.ext_iff, String.byteIdx_rawEndPos, length_utf8, eq_comm]

/-- The first bytes of a string are a string when they end at a boundary. -/
theorem fromUtf8_take_eq_none_iff {s : String} {n : Nat} (hn : n ≤ (utf8 s).length) :
    fromUtf8 ((utf8 s).take n) = none ↔ ¬CharBoundary s n := by
  have hbytes : ((utf8 s).take n).toByteArray = s.toByteArray.extract 0 n := by
    apply ByteArray.ext
    rw [ByteArray.data_extract]
    apply Array.ext'
    simp [utf8]
  have hle : String.Pos.Raw.mk n ≤ s.rawEndPos := by
    rw [length_utf8] at hn
    exact hn
  rw [fromUtf8, String.fromUTF8?, hbytes, CharBoundary,
    String.Pos.Raw.isValid_iff_isValidUTF8_extract_zero, and_iff_right hle]
  split
  · rename_i h
    exact iff_of_false (Option.some_ne_none _) (not_not.mpr h)
  · rename_i h
    exact iff_of_true rfl h

theorem fromUtf8_take_append (t rest : String) :
    fromUtf8 ((utf8 (t ++ rest)).take (utf8 t).length) = some t := by
  rw [utf8_append, List.take_left, fromUtf8_utf8]

namespace RevertEvent

/-- What an event that is recovered has in common with the one that was recorded. -/
structure SurvivesAs (event found : RevertEvent) : Prop where
  txHash : found.txHash = event.txHash
  blockNumber : found.blockNumber = event.blockNumber
  gasUsed : found.gasUsed = event.gasUsed
  effectiveGasPrice : found.effectiveGasPrice = event.effectiveGasPrice
  isSome : found.reason.isSome = event.reason.isSome
  text : ∀ s t, event.reason = some s → found.reason = some t → (∃ rest, s = t ++ rest) ∧
    ((utf8 s).length ≤ 65535 → t = s) ∧ (65535 < (utf8 s).length → 65532 ≤ (utf8 t).length)

/-- There is no reason, or one that is not empty and not cut inside a character. -/
def Storable (event : RevertEvent) : Prop :=
  ∀ s, event.reason = some s → s ≠ "" ∧ ((utf8 s).length ≤ 65535 ∨ CharBoundary s 65535)

variable {event : RevertEvent} {s : String}

theorem persistedReason_none (h : event.reason = none) : event.persistedReason = none := by
  simp [persistedReason, reasonLen, reasonBytes, h, utf8]

theorem persistedReason_empty (h : event.reason = some "") : event.persistedReason = none := by
  simp [persistedReason, reasonLen, reasonBytes, h, utf8]

theorem persistedReason_short (h : event.reason = some s) (hs : s ≠ "")
    (hle : (utf8 s).length ≤ 65535) : event.persistedReason = some s := by
  have hrec : (HistoryEntry.revertedTx event).Recordable := by
    intro t ht
    cases h.symm.trans ht
    exact ⟨hs, hle⟩
  have hpersisted := HistoryEntry.persisted_of_recordable hrec
  rw [HistoryEntry.persisted, HistoryEntry.revertedTx.injEq] at hpersisted
  exact (congrArg RevertEvent.reason hpersisted).trans h

theorem persistedReason_long (h : event.reason = some s) (hlt : 65535 < (utf8 s).length) :
    event.persistedReason = fromUtf8 ((utf8 s).take 65535) := by
  have hbytes : event.reasonBytes = utf8 s := by rw [reasonBytes, h]; rfl
  have hlen : event.reasonLen = 65535 := by
    rw [reasonLen, hbytes, Nat.min_eq_right hlt.le]
  rw [persistedReason, hlen, if_pos (by decide), hbytes]

theorem persistedReason_boundary {rest : String} (h : event.reason = some (s ++ rest))
    (hlt : 65535 < (utf8 (s ++ rest)).length) (hs : (utf8 s).length = 65535) :
    event.persistedReason = some s := by
  rw [persistedReason_long h hlt, ← hs, fromUtf8_take_append]

theorem storable_of_survivesAs
    (H : event.SurvivesAs { event with reason := event.persistedReason }) : event.Storable := by
  intro s hs
  have hsome : event.persistedReason ≠ none := by
    rw [← Option.isSome_iff_ne_none]
    exact H.isSome.trans (congrArg Option.isSome hs)
  constructor
  · rintro rfl
    exact hsome (persistedReason_empty hs)
  · by_cases hle : (utf8 s).length ≤ 65535
    · exact .inl hle
    · have hlt := Nat.not_le.mp hle
      rw [persistedReason_long hs hlt, ne_eq, fromUtf8_take_eq_none_iff hlt.le, not_not] at hsome
      exact .inr hsome

theorem survivesAs_of_storable (H : event.Storable) :
    event.SurvivesAs { event with reason := event.persistedReason } := by
  cases h : event.reason with
  | none =>
    refine ⟨rfl, rfl, rfl, rfl, ?_, fun s t hs => ?_⟩
    · rw [persistedReason_none h, h]
    · cases h.symm.trans hs
  | some s =>
    obtain ⟨hne, hshort⟩ := H s h
    by_cases hle : (utf8 s).length ≤ 65535
    · have hreason := persistedReason_short h hne hle
      refine ⟨rfl, rfl, rfl, rfl, ?_, fun s' t hs ht => ?_⟩
      · rw [hreason, h]
      · cases h.symm.trans hs
        cases hreason.symm.trans ht
        exact ⟨⟨"", String.append_empty.symm⟩, fun _ => rfl, fun hlt => absurd hle (by omega)⟩
    · obtain ⟨t, rest, rfl, hlen⟩ := charBoundary_iff.mp (hshort.resolve_left hle)
      have hreason := persistedReason_boundary h (by omega) hlen
      refine ⟨rfl, rfl, rfl, rfl, ?_, fun s' t' hs ht => ?_⟩
      · rw [hreason, h]
        rfl
      · cases h.symm.trans hs
        cases hreason.symm.trans ht
        exact ⟨⟨rest, rfl⟩, fun hle' => absurd hle' hle, fun _ => by omega⟩

/-- **A recorded revert survives just when its reason is storable.** -/
theorem survivesAs_persisted_iff :
    event.SurvivesAs { event with reason := event.persistedReason } ↔ event.Storable :=
  ⟨storable_of_survivesAs, survivesAs_of_storable⟩

end RevertEvent

/-! ## Runs -/

variable {path : Path} {max : Nat} {w : FileSystem Path} {journal : JournaledHistory} {l : Ledger}

/-- **The reason of a revert survives** a close and a reopening, whatever calls, compactions and
openings there have been since it was recorded, if and only if it is storable and the journal's path
is not its own lock path. -/
theorem reason_survives_iff (H : LedgerRun path max w (some journal) l) {n : Nat}
    {event : RevertEvent} (hevent : l.disk[n]? = some (.revertedTx event)) (max' : Nat)
    (epochMs : UInt64) :
    ∃ reopened w', (journal.reopen max' epochMs).run exec w = (.ok reopened, w') ∧
      ((∃ found, reopened.inner.timeline[n]? = some (.revertedTx found) ∧
          event.SurvivesAs found) ↔
        path.extension ≠ some lockExtension ∧ event.Storable) := by
  obtain ⟨reopened, w', hrun, htimeline⟩ := H.reopen_ok max' epochMs
  refine ⟨reopened, w', hrun, ?_⟩
  rw [htimeline]
  split
  · rename_i hpath
    exact iff_of_false (fun ⟨_, hfound, _⟩ => nomatch hfound) fun h => h.1 hpath
  · rename_i hpath
    rw [List.getElem?_map, hevent, and_iff_right hpath, ← RevertEvent.survivesAs_persisted_iff]
    constructor
    · rintro ⟨found, hsome, hsurvives⟩
      cases hsome
      exact hsurvives
    · exact fun hsurvives => ⟨_, rfl, hsurvives⟩

/-- A revert with a reason. -/
def revertBecause (reason : String) : RevertEvent :=
  ⟨Vector.replicate 32 0, 1, some reason, 21000, .ofNat 30⟩

/-- A trade and a revert, compacted to the revert. -/
theorem reason_survives_compaction : ∃ w journal reopened w' found,
    LedgerRun driftJournal 1 w (some journal)
      ⟨[.trade 100 90, .revertedTx (revertBecause "slippage")],
        [.trade 100 90, .revertedTx (revertBecause "slippage")],
        [.revertedTx (revertBecause "slippage")]⟩ ∧
      (journal.reopen 1 0).run exec w = (.ok reopened, w') ∧
      reopened.inner.timeline[0]? = some (.revertedTx found) ∧
      (revertBecause "slippage").SurvivesAs found := by
  obtain ⟨w, journal, H⟩ := exists_ledgerRun driftJournal 1
    [⟨0, .trade 100 90⟩, ⟨0, .revertedTx (revertBecause "slippage")⟩]
  obtain ⟨_, _, _, _, h⟩ := H.inv
  obtain ⟨_, _, _, _, _, hcompact, _⟩ := h.compacted 0
  have H' := H.compacted hcompact
  have hstorable : (revertBecause "slippage").Storable := by
    intro s hs
    cases hs
    exact ⟨by decide, .inl (by decide)⟩
  obtain ⟨reopened, w', hrun, hiff⟩ := reason_survives_iff H' (n := 0) rfl 1 0
  obtain ⟨found, hfound, hsurvives⟩ := hiff.mpr ⟨driftJournal_ne_lock, hstorable⟩
  exact ⟨_, _, reopened, w', found, H', hrun, hfound, hsurvives⟩

/-- A reason that is there but empty comes back as none. -/
theorem not_reason_survives_empty : ∃ w journal reopened w',
    LedgerRun driftJournal 1 w (some journal)
      ⟨[.revertedTx (revertBecause "")], [.revertedTx (revertBecause "")],
        [.revertedTx (revertBecause "")]⟩ ∧
      (journal.reopen 1 0).run exec w = (.ok reopened, w') ∧
      ¬∃ found, reopened.inner.timeline[0]? = some (.revertedTx found) ∧
        (revertBecause "").SurvivesAs found := by
  obtain ⟨w, journal, H⟩ :=
    exists_ledgerRun driftJournal 1 [⟨0, .revertedTx (revertBecause "")⟩]
  obtain ⟨reopened, w', hrun, htimeline⟩ := H.reopen_ok 1 0
  rw [if_neg driftJournal_ne_lock] at htimeline
  refine ⟨w, journal, reopened, w', H, hrun, ?_⟩
  rintro ⟨found, hfound, hsurvives⟩
  rw [htimeline] at hfound
  cases hfound
  cases hsurvives.isSome

end Driftbrake
