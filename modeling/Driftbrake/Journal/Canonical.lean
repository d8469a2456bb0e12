import Driftbrake.Journal.Lifetime
import Driftbrake.Journal.Reasons

/-!
# Revert frames that nobody wrote

The replay loop asks of a revert frame that its checksum is right and that the payload has its 74
fixed bytes. What stands behind them is read leniently: bytes behind the reason are skipped, and a
reason that is too long for the payload or is not UTF-8 is taken for none. A frame is `Canonical`
when writing its event again makes the same payload, and the frames that are not are those with such
a reason (`Frame.canonical_iff`). All frames that an opening accepts are canonical just when the
file is the writer's own (`Written`), as the sessions of a journal leave it
(`AfterSessions.written`).
-/

namespace Driftbrake

open FileSystem

variable {w w' : FileSystem Path} {path : Path} {n : Nat} {epochMs timestampMs : UInt64}
  {journal : JournaledHistory} {payload : List UInt8} {event : RevertEvent} {f : Frame}

/-- The payload of a revert frame is what the writer makes of the event that replay reads from it,
at some time. -/
def Frame.Canonical (f : Frame) : Prop :=
  ∀ event, f.entry = .revertedTx event → ∃ timestampMs, f.payload = encodeRevert event timestampMs

/-- The length that a revert payload gives for its reason. -/
def storedReasonLen (payload : List UInt8) : Nat := ofBe (slice payload 72 74)

/-- The reason of a revert payload: the stored number of bytes behind the fixed ones. -/
def storedReason (payload : List UInt8) : List UInt8 :=
  slice payload 74 (74 + storedReasonLen payload)

/-- There are bytes behind the reason, or the reason has not all its bytes, or it is not UTF-8. -/
inductive IrregularReason (payload : List UInt8) : Prop
  | trailing : 74 + storedReasonLen payload < payload.length → IrregularReason payload
  | missing : payload.length < 74 + storedReasonLen payload → IrregularReason payload
  | notUtf8 : fromUtf8 (storedReason payload) = none → IrregularReason payload

theorem storedReasonLen_lt (payload : List UInt8) : storedReasonLen payload < 2 ^ 16 := by
  have hlt := ofBe_lt (slice payload 72 74)
  have hle : (slice payload 72 74).length ≤ 2 := by simp [slice]
  exact hlt.trans_le (Nat.pow_le_pow_right (by decide) hle)

theorem TxHash.toList_ofBytes {bs : List UInt8} (h : bs.length = 32) :
    (TxHash.ofBytes bs).toList = bs := by
  refine List.ext_getElem (by simp [h]) fun i hi hi' => ?_
  simp [TxHash.ofBytes, hi']

/-- The event that is read from a payload keeps its fixed bytes. -/
theorem encodeRevert_decodeRevert (h : 74 ≤ payload.length) :
    encodeRevert (decodeRevert payload) (u64FromBeBytes (slice payload 64 72)) =
      slice payload 0 72 ++ (toBe 2 (decodeRevert payload).reasonLen ++
        (decodeRevert payload).reasonBytes.take (decodeRevert payload).reasonLen) := by
  have hhash : (decodeRevert payload).txHash.toList = slice payload 0 32 :=
    TxHash.toList_ofBytes (length_slice (by omega))
  have hblock : u64ToBeBytes (decodeRevert payload).blockNumber = slice payload 32 40 :=
    u64ToBeBytes_fromBeBytes (length_slice (by omega))
  have hgas : u64ToBeBytes (decodeRevert payload).gasUsed = slice payload 40 48 :=
    u64ToBeBytes_fromBeBytes (length_slice (by omega))
  have hprice : (decodeRevert payload).effectiveGasPrice.toBeBytes = slice payload 48 64 :=
    U128.toBeBytes_fromBeBytes (length_slice (by omega))
  have htime : u64ToBeBytes (u64FromBeBytes (slice payload 64 72)) = slice payload 64 72 :=
    u64ToBeBytes_fromBeBytes (length_slice (by omega))
  rw [encodeRevert, hhash, hblock, hgas, hprice, htime, slice_append_slice (by omega) (by omega),
    slice_append_slice (by omega) (by omega), slice_append_slice (by omega) (by omega),
    slice_append_slice (by omega) (by omega), List.append_assoc]

/-- A regular reason is the reason of the event. -/
theorem reasonBytes_decodeRevert (h : ¬IrregularReason payload) :
    (decodeRevert payload).reasonBytes = storedReason payload := by
  have hle : 74 + storedReasonLen payload ≤ payload.length :=
    Nat.le_of_not_lt fun hlt => h (.missing hlt)
  by_cases hpos : 0 < storedReasonLen payload
  · obtain ⟨s, hs⟩ := Option.ne_none_iff_exists'.mp fun hnone => h (.notUtf8 hnone)
    have hreason : (decodeRevert payload).reason = some s := (if_pos ⟨hpos, hle⟩).trans hs
    rw [RevertEvent.reasonBytes, hreason, Option.getD_some, utf8_of_fromUtf8 hs]
  · have hreason : (decodeRevert payload).reason = none := if_neg fun h => hpos h.1
    have hnil : storedReason payload = [] := by
      rw [storedReason, Nat.eq_zero_of_not_pos hpos, slice, Nat.add_zero, Nat.sub_self,
        List.take_zero]
    rw [RevertEvent.reasonBytes, hreason, hnil]
    rfl

/-- A payload with a regular reason is written again as it is. -/
theorem encodeRevert_of_regular (hlen : 74 ≤ payload.length) (h : ¬IrregularReason payload) :
    encodeRevert (decodeRevert payload) (u64FromBeBytes (slice payload 64 72)) = payload := by
  have hle : 74 + storedReasonLen payload ≤ payload.length :=
    Nat.le_of_not_lt fun hlt => h (.missing hlt)
  have hend : 74 + storedReasonLen payload = payload.length :=
    hle.antisymm (Nat.le_of_not_lt fun hlt => h (.trailing hlt))
  have hstored : (storedReason payload).length = storedReasonLen payload := by
    rw [storedReason, length_slice hle, Nat.add_sub_cancel_left]
  have hreasonLen : (decodeRevert payload).reasonLen = storedReasonLen payload := by
    rw [RevertEvent.reasonLen, reasonBytes_decodeRevert h, hstored]
    exact Nat.min_eq_left (Nat.le_of_lt_succ (storedReasonLen_lt payload))
  have hbytes : toBe 2 (storedReasonLen payload) = slice payload 72 74 :=
    toBe_ofBe (length_slice hlen)
  rw [encodeRevert_decodeRevert hlen, hreasonLen, reasonBytes_decodeRevert h, hbytes, ← hstored,
    List.take_length, storedReason, hend, slice_append_slice (by omega) hlen,
    slice_append_slice (by omega) (by omega), slice_length]

/-- What the writer makes of the event that is read from it has a regular reason. -/
theorem regular_of_encodeRevert (h : payload = encodeRevert (decodeRevert payload) timestampMs) :
    ¬IrregularReason payload := by
  have hstored : storedReasonLen payload = (decodeRevert payload).reasonLen := by
    rw [h, storedReasonLen, reasonLen_encodeRevert, ← h]
  have hlen : payload.length = 74 + storedReasonLen payload := by
    rw [hstored, ← length_encodeRevert (decodeRevert payload) timestampMs, ← h]
  intro hirregular
  cases hirregular with
  | trailing hlt => omega
  | missing hlt => omega
  | notUtf8 hnone =>
    -- the event has no reason, so none was written
    have hreason : (decodeRevert payload).reason = none := by
      show decodeReason payload = none
      rw [decodeReason]
      split
      · exact hnone
      · rfl
    have hwritten := reason_encodeRevert (decodeRevert payload) timestampMs
    rw [← h, ← hstored, RevertEvent.reasonBytes, hreason] at hwritten
    have hnil : storedReason payload = utf8 "" := hwritten.trans List.take_nil
    rw [hnil, fromUtf8_utf8] at hnone
    cases hnone

theorem Frame.canonical_iff :
    f.Canonical ↔ (f.tag = tagRevert → ¬IrregularReason f.payload) := by
  rcases f.parsed with ⟨htag, _⟩ | ⟨htag, hlen⟩
  · have hne : f.tag ≠ tagRevert := by
      rw [htag]
      decide
    refine iff_of_true (fun event h => ?_) fun h => absurd h hne
    rw [Frame.entry, if_pos htag] at h
    cases h
  · have hentry : f.entry = .revertedTx (decodeRevert f.payload) := by
      have hne : f.tag ≠ tagPair := by
        rw [htag]
        decide
      rw [Frame.entry, if_neg hne]
    constructor
    · intro H _
      obtain ⟨timestampMs, h⟩ := H _ hentry
      exact regular_of_encodeRevert h
    · intro H event h
      obtain rfl := HistoryEntry.revertedTx.inj (hentry.symm.trans h)
      exact ⟨_, (encodeRevert_of_regular hlen (H htag)).symm⟩

/-! ## Frames of the writer -/

/-- The reason is not cut inside a character. -/
def RevertEvent.Uncut (event : RevertEvent) : Prop :=
  ∀ s, event.reason = some s → (utf8 s).length ≤ 65535 ∨ CharBoundary s 65535

theorem RevertEvent.uncut_iff :
    event.Uncut ↔ fromUtf8 (event.reasonBytes.take event.reasonLen) ≠ none := by
  cases h : event.reason with
  | none =>
    have hbytes : event.reasonBytes = utf8 "" := by rw [reasonBytes, h]; rfl
    have hnil : (utf8 "").take event.reasonLen = utf8 "" := List.take_nil
    rw [hbytes, hnil, fromUtf8_utf8]
    exact iff_of_true (fun s hs => by cases h.symm.trans hs) (Option.some_ne_none _)
  | some s =>
    have hbytes : event.reasonBytes = utf8 s := by rw [reasonBytes, h]; rfl
    have hexists : event.Uncut ↔ (utf8 s).length ≤ 65535 ∨ CharBoundary s 65535 := by
      refine ⟨fun H => H s h, fun H t ht => ?_⟩
      cases h.symm.trans ht
      exact H
    rw [hexists, reasonLen, hbytes]
    by_cases hle : (utf8 s).length ≤ 65535
    · rw [Nat.min_eq_left hle, List.take_length, fromUtf8_utf8]
      exact iff_of_true (.inl hle) (Option.some_ne_none _)
    · have hlt := Nat.not_le.mp hle
      rw [Nat.min_eq_right hlt.le, ne_eq, fromUtf8_take_eq_none_iff hlt.le, not_not]
      exact or_iff_right hle

def HistoryEntry.Uncut : HistoryEntry → Prop
  | .confirmedPair .. => True
  | .revertedTx event => event.Uncut

/-- A frame that is written for an entry is canonical unless a reason is cut inside a character. -/
theorem canonical_ofEntry_iff {e : HistoryEntry} :
    (Frame.ofEntry e timestampMs).Canonical ↔ e.Uncut := by
  cases e with
  | confirmedPair predicted realized =>
    refine iff_of_true (fun event h => ?_) trivial
    rw [Frame.entry_ofEntry] at h
    cases h
  | revertedTx event =>
    have hpayload : (Frame.ofEntry (.revertedTx event) timestampMs).payload =
        encodeRevert event timestampMs := rfl
    have hstored : storedReasonLen (encodeRevert event timestampMs) = event.reasonLen :=
      reasonLen_encodeRevert event timestampMs
    have hreason : storedReason (encodeRevert event timestampMs) =
        event.reasonBytes.take event.reasonLen := by
      rw [storedReason, hstored, reason_encodeRevert]
    rw [HistoryEntry.Uncut, RevertEvent.uncut_iff, Frame.canonical_iff, hpayload, ← hreason]
    refine ⟨fun H hnone => H rfl (.notUtf8 hnone), fun H _ h => ?_⟩
    cases h with
    | trailing hlt | missing hlt =>
      rw [length_encodeRevert, hstored] at hlt
      exact absurd hlt (Nat.lt_irrefl _)
    | notUtf8 hnone => exact H hnone

/-- The pair that is read from a payload is written again as it is. -/
theorem encodePair_decodePair (h : payload.length = 40) :
    encodePair (decodePair payload).1 (decodePair payload).2
      (u64FromBeBytes (slice payload 32 40)) = payload := by
  have hpredicted : (decodePair payload).1.val.toBeBytes = slice payload 0 16 :=
    I128.toBeBytes_fromBeBytes (length_slice (by omega))
  have hrealized : (decodePair payload).2.val.toBeBytes = slice payload 16 32 :=
    I128.toBeBytes_fromBeBytes (length_slice (by omega))
  have htime : u64ToBeBytes (u64FromBeBytes (slice payload 32 40)) = slice payload 32 40 :=
    u64ToBeBytes_fromBeBytes (length_slice (by omega))
  rw [encodePair, hpredicted, hrealized, htime, slice_append_slice (by omega) (by omega),
    slice_append_slice (by omega) (by omega), ← h, slice_length]

theorem Frame.ext {f g : Frame} (htag : f.tag = g.tag) (hpayload : f.payload = g.payload) :
    f = g := by
  cases f
  cases g
  cases htag
  cases hpayload
  rfl

/-- The writer makes every canonical frame. -/
theorem Frame.Canonical.exists_call (h : f.Canonical) :
    ∃ call : JournaledHistory.Call, .ofEntry call.entry call.timestampMs = f ∧
      call.entry.Uncut := by
  suffices hof : ∃ call : JournaledHistory.Call, .ofEntry call.entry call.timestampMs = f by
    obtain ⟨call, rfl⟩ := hof
    exact ⟨call, rfl, canonical_ofEntry_iff.mp h⟩
  rcases f.parsed with ⟨htag, hlen⟩ | ⟨htag, _⟩
  · exact ⟨⟨u64FromBeBytes (slice f.payload 32 40),
      .confirmedPair (decodePair f.payload).1 (decodePair f.payload).2⟩,
      Frame.ext htag.symm (encodePair_decodePair hlen)⟩
  · have hne : f.tag ≠ tagPair := by
      rw [htag]
      decide
    obtain ⟨timestampMs, hpayload⟩ := h (decodeRevert f.payload) (if_neg hne)
    exact ⟨⟨timestampMs, .revertedTx (decodeRevert f.payload)⟩, Frame.ext htag.symm hpayload.symm⟩

theorem exists_framesOf {fs : List Frame} (h : ∀ f ∈ fs, f.Canonical) :
    ∃ calls, framesOf calls = fs ∧ ∀ call ∈ calls, call.entry.Uncut := by
  induction fs with
  | nil => exact ⟨[], rfl, nofun⟩
  | cons f fs ih =>
    rw [List.forall_mem_cons] at h
    obtain ⟨call, rfl, huncut⟩ := h.1.exists_call
    obtain ⟨calls, rfl, hcalls⟩ := ih h.2
    exact ⟨call :: calls, rfl, List.forall_mem_cons.mpr ⟨huncut, hcalls⟩⟩

/-! ## Files of the writer -/

/-- A file that the writer has left: nothing, or a header, the frames that it makes of some entries
with no reason cut inside a character, and a tail in which no frame starts, such as a torn write
leaves. -/
def Written (content : List UInt8) : Prop :=
  content = [] ∨ ∃ hd calls tail, content = image hd (framesOf calls) ++ tail ∧
    Frame.next tail = none ∧ ∀ call ∈ calls, call.entry.Uncut

/-- An opening of such a file keeps the frames that the writer has made. -/
theorem Written.open_ok (H : Written (contentAt w path)) (hunlocked : Unlocked w path)
    (h : (openOrCreate path n epochMs).run exec w = (.ok journal, w')) :
    ∃ i hd calls, Live w' journal i (image hd (framesOf calls)) ∧ journal.path = path ∧
      ∀ call ∈ calls, call.entry.Uncut := by
  rcases H with hnil | ⟨hd, calls, tail, hcontent, hstop, huncut⟩
  · obtain ⟨i, _, hrun, hlive, _⟩ := openOrCreate_new n epochMs hunlocked hnil
    cases h.symm.trans hrun
    exact ⟨i, .new epochMs, [], hlive, rfl, nofun⟩
  · rw [image, List.append_assoc] at hcontent
    obtain ⟨i, _, hrun, hlive, _⟩ :=
      openOrCreate_image n epochMs hunlocked hcontent ⟨rfl, hstop⟩
    cases h.symm.trans hrun
    exact ⟨i, hd, calls, hlive, rfl, huncut⟩

/-- The sessions of a journal that nothing else writes to leave such a file. -/
theorem AfterSessions.written {es : List HistoryEntry} (H : AfterSessions path w es)
    (hne : path ≠ path.lockPath) (huncut : ∀ e ∈ es, e.Uncut) : Written (contentAt w path) := by
  induction H with
  | start hnone _ => exact .inl (contentAt_of_none hnone)
  | session s H' hopen hcalls hend ih =>
    have hearlier := ih fun e he => huncut e (List.mem_append_left _ he)
    obtain ⟨i, hd, calls, hlive, rfl, hold⟩ := hearlier.open_ok (H'.stored hne).unlocked hopen
    obtain ⟨w₂, hcalls', hlive', _⟩ := recordAll_ok hlive s.calls
    cases hcalls.symm.trans hcalls'
    obtain ⟨w₃, hend', _, _, hlookup⟩ := finish_ok hlive' s.ending
    cases hend.symm.trans hend'
    refine .inr ⟨hd, calls ++ s.calls, s.ending.part, ?_, s.ending.next_part, fun call hcall => ?_⟩
    · rw [framesOf, List.map_append]
      exact contentAt_of_lookup (hlookup hne)
    · rcases List.mem_append.mp hcall with hcall | hcall
      · exact hold call hcall
      · exact huncut _ (List.mem_append_right _ (List.mem_map_of_mem hcall))

/-! ## Openings -/

theorem decodes_drop_image {content tail : List UInt8} {hd : Header} {fs : List Frame}
    (h : content = image hd fs ++ tail) (hstop : Frame.next tail = none) :
    frameCode.Decodes (content.drop 16) fs tail := by
  refine ⟨?_, hstop⟩
  rw [h, image, List.append_assoc, ← hd.length_bytes, List.drop_left]

/-- **Replay accepts what no writer makes.** Whatever the bytes of a file that is opened, each
revert frame that is accepted is the encoding of the event it yields if and only if the file is one
that the writer has left. -/
theorem accepted_canonical_iff
    (h : (openOrCreate path n epochMs).run exec w = (.ok journal, w')) :
    ∃ fs, LongestFrames ((contentAt w path).drop 16) fs ∧
      journal.inner = .ofEntries (entries fs) ∧
      ((∀ f ∈ fs, f.Canonical) ↔ Written (contentAt w path)) := by
  rcases content_of_opened h with ⟨hnil, hinner⟩ | ⟨hd, fs, tail, hcontent, hstop, hinner⟩
  · refine ⟨[], ?_, hinner, iff_of_true nofun (.inl hnil)⟩
    rw [hnil]
    exact longestFrames (FrameCode.decodes_encode [])
  · have hdecodes := decodes_drop_image hcontent hstop
    refine ⟨fs, longestFrames hdecodes, hinner, fun H => ?_, fun H => ?_⟩
    · obtain ⟨calls, rfl, huncut⟩ := exists_framesOf H
      exact .inr ⟨hd, calls, tail, hcontent, hstop, huncut⟩
    · rcases H with hnil | ⟨hd', calls, tail', hcontent', hstop', huncut⟩
      · rw [hnil] at hcontent
        have hlen := congrArg List.length hcontent
        rw [image, List.append_assoc, List.length_append, hd.length_bytes, List.length_nil] at hlen
        omega
      · -- the bytes have one decoding only, so the frames that are read are those of the calls
        obtain rfl := hdecodes.unique (decodes_drop_image hcontent' hstop')
        intro f hf
        obtain ⟨call, hcall, rfl⟩ := List.mem_map.mp hf
        exact canonical_ofEntry_iff.mpr (huncut call hcall)

/-- A journal with one session, in which a revert is recorded. -/
theorem accepted_canonical_written : ∃ event w journal w' fs,
    AfterSessions driftJournal w [.revertedTx event] ∧
    (openOrCreate driftJournal 100 0).run exec w = (.ok journal, w') ∧
    journal.inner = .ofEntries (entries fs) ∧ fs.length = 1 ∧ ∀ f ∈ fs, f.Canonical := by
  let event : RevertEvent := ⟨.replicate 32 0, 1, some "out of gas", 2, .ofNat 3⟩
  let s : Session := ⟨100, 0, [⟨5, .revertedTx event⟩], .clean⟩
  have hunlocked : Unlocked (FileSystem.empty : FileSystem Path) driftJournal := rfl
  obtain ⟨i, w₁, hopen, hlive, _⟩ := openOrCreate_new 100 0 hunlocked rfl
  obtain ⟨w₂, hcalls, hlive', _⟩ := recordAll_ok hlive s.calls
  have hafter := AfterSessions.session s (.start rfl hunlocked) hopen hcalls (drop_run hlive')
  have hne : driftJournal ≠ driftJournal.lockPath := by decide
  have hwritten := hafter.written hne fun e he => by
    obtain rfl := List.mem_singleton.mp he
    intro text htext
    cases htext
    exact .inl (by decide)
  obtain ⟨_, w', _, _, hrun, _⟩ := (hafter.stored hne).open_ok 100 0
  obtain ⟨fs, _, hinner, hiff⟩ := accepted_canonical_iff hrun
  have hlen := congrArg (·.timeline.length) hinner
  simp only [ReconcileHistory.timeline_ofEntries, entries, List.length_map] at hlen
  exact ⟨event, _, _, _, fs, hafter, hrun, hinner, hlen.symm, hiff.mpr hwritten⟩

/-- A revert frame with a byte behind its fixed ones, and no reason. -/
def trailingFrame : Frame where
  tag := tagRevert
  payload := List.replicate 75 0
  parsed := by decide
  length_lt := by decide

theorem not_canonical_trailingFrame : ¬trailingFrame.Canonical := by
  rw [Frame.canonical_iff]
  intro H
  refine H rfl (.trailing ?_)
  decide

/-- The frame is accepted, though no writer makes it. -/
theorem not_accepted_canonical_trailing : ∃ journal w' fs,
    (openOrCreate driftJournal 100 0).run exec
      (.ofFile driftJournal (image (.new 7) [trailingFrame])) = (.ok journal, w') ∧
    LongestFrames (frameCode.encode [trailingFrame]) fs ∧ trailingFrame ∈ fs ∧
    journal.inner = .ofEntries (entries fs) ∧ ¬∀ f ∈ fs, f.Canonical := by
  have hlock : Unlocked (ofFile driftJournal (image (.new 7) [trailingFrame])) driftJournal := rfl
  have hcontent : contentAt (ofFile driftJournal (image (.new 7) [trailingFrame])) driftJournal =
      (Header.new 7).bytes ++ frameCode.encode [trailingFrame] := rfl
  have hdecodes := FrameCode.decodes_encode (C := frameCode) [trailingFrame]
  obtain ⟨_, w', hrun, _⟩ := openOrCreate_image 100 0 hlock hcontent hdecodes
  have hmem : trailingFrame ∈ [trailingFrame] := List.mem_singleton_self _
  refine ⟨_, w', _, hrun, longestFrames hdecodes, hmem, rfl, fun H => ?_⟩
  exact not_canonical_trailingFrame (H _ hmem)

end Driftbrake
