import Driftbrake.Core.History
import Driftbrake.Lib.BigEndian
import Driftbrake.Lib.FrameCode

/-!
# The journal file format

A journal is a header of 16 bytes and a stream of frames. `encodePair` and `encodeRevert` are the
encoders of `append`, `record_revert` and `compact`, `decodePair` and `decodeRevert` the decoders of
the replay loop. A `Frame` is what the replay loop accepts, whoever wrote it; `frameCode` says that
a stream of frames can be read off in one way only.

An entry comes back from its frame as `persisted` says: unchanged, but for the reason of a revert,
which is cut at 65535 bytes and lost when it is empty or the cut is not valid UTF-8.
-/

namespace Driftbrake

/-- `b"DRFT"`. -/
def magic : List UInt8 := [0x44, 0x52, 0x46, 0x54]

def currentVersion : Nat := 1
def headerSize : Nat := 16
def tagPair : UInt8 := 1
def tagRevert : UInt8 := 2

/-- The header that a new journal gets: magic, version, flags, epoch. -/
def header (epochMs : UInt64) : List UInt8 :=
  magic ++ toBe 2 currentVersion ++ toBe 2 0 ++ u64ToBeBytes epochMs

/-! ## The checksum -/

/-- One round of the inner loop of `crc32`. -/
def crcBit (crc : UInt32) : UInt32 :=
  if crc &&& 1 ≠ 0 then (crc >>> 1) ^^^ 0xEDB88320 else crc >>> 1

def crcByte (crc : UInt32) (byte : UInt8) : UInt32 := Nat.repeat crcBit 8 (crc ^^^ byte.toUInt32)

def crc32 (data : List UInt8) : UInt32 := ~~~(data.foldl crcByte 0xFFFFFFFF)

/-! ## Payloads -/

def encodePair (predicted : PredictedProfit) (realized : RealizedProfit) (timestampMs : UInt64) :
    List UInt8 :=
  predicted.val.toBeBytes ++ realized.val.toBeBytes ++ u64ToBeBytes timestampMs

def decodePair (payload : List UInt8) : PredictedProfit × RealizedProfit :=
  (⟨.fromBeBytes (slice payload 0 16)⟩, ⟨.fromBeBytes (slice payload 16 32)⟩)

/-- The UTF-8 bytes of a string. -/
def utf8 (s : String) : List UInt8 := s.toUTF8.data.toList

/-- `String::from_utf8(bytes).ok()`. -/
def fromUtf8 (bs : List UInt8) : Option String := String.fromUTF8? bs.toByteArray

/-- `event.reason.as_deref().unwrap_or("").as_bytes()`. -/
def RevertEvent.reasonBytes (event : RevertEvent) : List UInt8 := utf8 (event.reason.getD "")

def RevertEvent.reasonLen (event : RevertEvent) : Nat := min event.reasonBytes.length 65535

def encodeRevert (event : RevertEvent) (timestampMs : UInt64) : List UInt8 :=
  event.txHash.toList ++ u64ToBeBytes event.blockNumber ++ u64ToBeBytes event.gasUsed ++
    event.effectiveGasPrice.toBeBytes ++ u64ToBeBytes timestampMs ++ toBe 2 event.reasonLen ++
    event.reasonBytes.take event.reasonLen

/-- The first 32 bytes as a hash. -/
def TxHash.ofBytes (bs : List UInt8) : TxHash := .ofFn fun i => bs.getD i 0

def decodeReason (payload : List UInt8) : Option String :=
  let reasonLen := ofBe (slice payload 72 74)
  if 0 < reasonLen ∧ 74 + reasonLen ≤ payload.length then
    fromUtf8 (slice payload 74 (74 + reasonLen))
  else none

def decodeRevert (payload : List UInt8) : RevertEvent where
  txHash := .ofBytes (slice payload 0 32)
  blockNumber := u64FromBeBytes (slice payload 32 40)
  reason := decodeReason payload
  gasUsed := u64FromBeBytes (slice payload 40 48)
  effectiveGasPrice := .fromBeBytes (slice payload 48 64)

/-! ## Frames -/

/-- The 9 bytes in front of a payload: tag, length and checksum. -/
def metaBytes (tag : UInt8) (payloadLen : Nat) (crc : UInt32) : List UInt8 :=
  tag :: (toBe 4 payloadLen ++ toBe 4 crc.toNat)

def metaTag (bs : List UInt8) : UInt8 := bs.headD 0
def metaLen (bs : List UInt8) : Nat := ofBe (slice bs 1 5)
def metaCrc (bs : List UInt8) : UInt32 := .ofNat (ofBe (slice bs 5 9))

/-- The tags and payload sizes that the replay loop parses. -/
def Parsed (tag : UInt8) (payloadLen : Nat) : Prop :=
  (tag = tagPair ∧ payloadLen = 40) ∨ (tag = tagRevert ∧ 74 ≤ payloadLen)

instance : Decidable (Parsed tag payloadLen) := inferInstanceAs (Decidable (_ ∨ _))

/-- A well-formed frame. -/
structure Frame where
  tag : UInt8
  payload : List UInt8
  parsed : Parsed tag payload.length
  length_lt : payload.length < 2 ^ 32

namespace Frame

def bytes (f : Frame) : List UInt8 :=
  metaBytes f.tag f.payload.length (crc32 f.payload) ++ f.payload

/-- The entry that the replay loop makes of a frame. -/
def entry (f : Frame) : HistoryEntry :=
  if f.tag = tagPair then
    let (predicted, realized) := decodePair f.payload
    .confirmedPair predicted realized
  else .revertedTx (decodeRevert f.payload)

end Frame

/-- The frame that `append` or `record_revert` writes for an entry. -/
def HistoryEntry.tag : HistoryEntry → UInt8
  | .confirmedPair .. => tagPair
  | .revertedTx _ => tagRevert

def HistoryEntry.encode (timestampMs : UInt64) : HistoryEntry → List UInt8
  | .confirmedPair predicted realized => encodePair predicted realized timestampMs
  | .revertedTx event => encodeRevert event timestampMs

/-! ## The frame stream -/

theorem metaLen_metaBytes (tag : UInt8) {n : Nat} (crc : UInt32) (rest : List UInt8)
    (hn : n < 2 ^ 32) : metaLen (metaBytes tag n crc ++ rest) = n := by
  have hs : slice (metaBytes tag n crc ++ rest) 1 5 = toBe 4 n := by
    have h : slice ([tag] ++ toBe 4 n ++ (toBe 4 crc.toNat ++ rest)) 1 5 = toBe 4 n :=
      slice_append rfl (by simp)
    simpa [metaBytes] using h
  rw [metaLen, hs, ofBe_toBe hn]

theorem metaCrc_metaBytes (tag : UInt8) (n : Nat) (crc : UInt32) (rest : List UInt8) :
    metaCrc (metaBytes tag n crc ++ rest) = crc := by
  have hs : slice (metaBytes tag n crc ++ rest) 5 9 = toBe 4 crc.toNat := by
    have h : slice (tag :: toBe 4 n ++ toBe 4 crc.toNat ++ rest) 5 9 = toBe 4 crc.toNat :=
      slice_append (by simp) (by simp)
    simpa [metaBytes] using h
  rw [metaCrc, hs, ofBe_toBe (n := 4) crc.toNat_lt]
  simp

@[simp] theorem length_metaBytes (tag : UInt8) (n : Nat) (crc : UInt32) :
    (metaBytes tag n crc).length = 9 := by
  simp [metaBytes]

/-- Nine bytes are read back from what they say. -/
theorem metaBytes_meta {bs : List UInt8} (h : bs.length = 9) :
    metaBytes (metaTag bs) (metaLen bs) (metaCrc bs) = bs := by
  have hcrc : (metaCrc bs).toNat = ofBe (slice bs 5 9) := by
    have hlt := ofBe_lt (slice bs 5 9)
    rw [length_slice (by omega)] at hlt
    exact UInt32.toNat_ofNat_of_lt' hlt
  have h1 : toBe 4 (ofBe (slice bs 1 5)) = slice bs 1 5 := toBe_ofBe (length_slice (by omega))
  have h5 : toBe 4 (ofBe (slice bs 5 9)) = slice bs 5 9 := toBe_ofBe (length_slice (by omega))
  rw [metaBytes, hcrc, metaLen, h1, h5]
  match bs, h with
  | [_, _, _, _, _, _, _, _, _], _ => rfl

theorem metaLen_lt (bs : List UInt8) : metaLen bs < 2 ^ 32 := by
  have hlt := ofBe_lt (slice bs 1 5)
  have hle : (slice bs 1 5).length ≤ 4 := by simp [slice]
  exact hlt.trans_le (Nat.pow_le_pow_right (by decide) hle)

/-- The meta bytes are the first nine, whatever follows. -/
theorem meta_take (bs : List UInt8) :
    metaTag (bs.take 9) = metaTag bs ∧ metaLen (bs.take 9) = metaLen bs ∧
      metaCrc (bs.take 9) = metaCrc bs := by
  have hs : ∀ i j, i ≤ j → j ≤ 9 → slice (bs.take 9) i j = slice bs i j := by
    intro i j hij hj
    rw [slice, slice, List.drop_take, List.take_take]
    congr 1
    omega
  refine ⟨?_, congrArg ofBe (hs 1 5 (by decide) (by decide)),
    congrArg (fun bs => UInt32.ofNat (ofBe bs)) (hs 5 9 (by decide) (by decide))⟩
  cases bs <;> rfl

namespace Frame

/-- The frame at the front of some bytes, if there is one. -/
def next (bs : List UInt8) : Option (Frame × List UInt8) :=
  let payload := slice bs 9 (9 + metaLen bs)
  if h : 9 + metaLen bs ≤ bs.length ∧ crc32 payload = metaCrc bs ∧
      Parsed (metaTag bs) payload.length then
    some (⟨metaTag bs, payload, h.2.2, by
      rw [length_slice h.1, Nat.add_sub_cancel_left]
      exact metaLen_lt bs⟩, bs.drop (9 + metaLen bs))
  else none

theorem next_bytes_append (f : Frame) (rest : List UInt8) :
    next (f.bytes ++ rest) = some (f, rest) := by
  have hbs : f.bytes ++ rest = metaBytes f.tag f.payload.length (crc32 f.payload) ++
      (f.payload ++ rest) := by rw [bytes, List.append_assoc]
  have hlen : metaLen (f.bytes ++ rest) = f.payload.length := by
    rw [hbs, metaLen_metaBytes _ _ _ f.length_lt]
  have hpayload : slice (f.bytes ++ rest) 9 (9 + f.payload.length) = f.payload :=
    slice_append (length_metaBytes ..) rfl
  have htag : metaTag (f.bytes ++ rest) = f.tag := rfl
  have hcrc : metaCrc (f.bytes ++ rest) = crc32 f.payload := by rw [hbs, metaCrc_metaBytes]
  have hdrop : (f.bytes ++ rest).drop (9 + f.payload.length) = rest := by
    rw [show 9 + f.payload.length = f.bytes.length by simp [bytes], List.drop_left]
  rw [next, dif_pos]
  · simp only [hlen, hpayload, htag, hdrop]
  · rw [hlen, hpayload, hcrc, htag]
    exact ⟨by simp [bytes], rfl, f.parsed⟩

theorem next_iff {bs rest : List UInt8} {f : Frame} :
    next bs = some (f, rest) ↔ bs = f.bytes ++ rest := by
  refine ⟨fun h => ?_, fun h => h ▸ next_bytes_append f rest⟩
  rw [next] at h
  split at h
  · rename_i hok
    obtain ⟨rfl, rfl⟩ := Prod.mk.inj (Option.some.inj h)
    obtain ⟨hlen, hcrc, _⟩ := hok
    have hpay : (slice bs 9 (9 + metaLen bs)).length = metaLen bs := by
      rw [length_slice hlen, Nat.add_sub_cancel_left]
    have hmeta : metaBytes (metaTag bs) (metaLen bs) (metaCrc bs) = bs.take 9 := by
      obtain ⟨htag, hlen', hcrc'⟩ := meta_take bs
      rw [← htag, ← hlen', ← hcrc']
      exact metaBytes_meta (by rw [List.length_take]; omega)
    simp only [bytes]
    rw [hpay, hcrc, hmeta, slice, Nat.add_sub_cancel_left, List.append_assoc, ← List.drop_drop,
      List.take_append_drop, List.take_append_drop]
  · cases h

/-- Nine bytes and a payload that pass the checks of the replay loop are a frame. -/
theorem exists_bytes_eq {head payload : List UInt8} (hhead : head.length = 9)
    (hlen : payload.length = metaLen head) (hcrc : crc32 payload = metaCrc head)
    (hparsed : Parsed (metaTag head) (metaLen head)) : ∃ f : Frame, f.bytes = head ++ payload := by
  refine ⟨⟨metaTag head, payload, hlen ▸ hparsed, hlen ▸ metaLen_lt head⟩, ?_⟩
  simp only [bytes]
  rw [hlen, hcrc, metaBytes_meta hhead]

end Frame

def frameCode : FrameCode Frame UInt8 where
  bytes := Frame.bytes
  next := Frame.next
  next_iff := Frame.next_iff
  bytes_ne_nil _ := List.cons_ne_nil _ _

/-! ## Entries come back from their frames -/

theorem fromUtf8_utf8 (s : String) : fromUtf8 (utf8 s) = some s := by
  have h : (utf8 s).toByteArray = s.toUTF8 := by
    apply ByteArray.ext
    simp [utf8]
  rw [fromUtf8, h]
  simp [String.fromUTF8?, String.fromUTF8, String.toUTF8, s.isValidUTF8]

theorem utf8_of_fromUtf8 {bs : List UInt8} {s : String} (h : fromUtf8 bs = some s) :
    utf8 s = bs := by
  rw [fromUtf8, String.fromUTF8?] at h
  split at h
  · cases h
    simp [utf8, String.fromUTF8]
  · cases h

theorem utf8_eq_nil {s : String} (h : utf8 s = []) : s = "" := by
  have := fromUtf8_utf8 s
  rw [h] at this
  exact (Option.some.inj this).symm

theorem TxHash.ofBytes_toList (hash : TxHash) : TxHash.ofBytes hash.toList = hash := by
  ext i hi
  simp [TxHash.ofBytes]

theorem RevertEvent.reasonLen_lt (event : RevertEvent) : event.reasonLen < 2 ^ 16 :=
  (Nat.min_le_right _ _).trans_lt (by decide)

theorem RevertEvent.length_reason (event : RevertEvent) :
    (event.reasonBytes.take event.reasonLen).length = event.reasonLen := by
  rw [List.length_take]
  exact Nat.min_eq_left (Nat.min_le_left _ _)

@[simp] theorem length_encodePair (predicted : PredictedProfit) (realized : RealizedProfit)
    (timestampMs : UInt64) : (encodePair predicted realized timestampMs).length = 40 := by
  simp [encodePair]

@[simp] theorem length_encodeRevert (event : RevertEvent) (timestampMs : UInt64) :
    (encodeRevert event timestampMs).length = 74 + event.reasonLen := by
  simp only [encodeRevert, List.length_append, event.length_reason]
  simp

theorem decodePair_encodePair (predicted : PredictedProfit) (realized : RealizedProfit)
    (timestampMs : UInt64) :
    decodePair (encodePair predicted realized timestampMs) = (predicted, realized) := by
  have h0 : slice (encodePair predicted realized timestampMs) 0 16 = predicted.val.toBeBytes := by
    rw [encodePair, List.append_assoc, slice_append_left (by simp)]
  have h16 : slice (encodePair predicted realized timestampMs) 16 32 = realized.val.toBeBytes := by
    rw [encodePair, slice_append (by simp) (by simp)]
  rw [decodePair, h0, h16, I128.fromBeBytes_toBeBytes, I128.fromBeBytes_toBeBytes]

/-- What replay makes of the reason that was written for an event. -/
def RevertEvent.persistedReason (event : RevertEvent) : Option String :=
  if 0 < event.reasonLen then fromUtf8 (event.reasonBytes.take event.reasonLen) else none

theorem reasonLen_encodeRevert (event : RevertEvent) (timestampMs : UInt64) :
    ofBe (slice (encodeRevert event timestampMs) 72 74) = event.reasonLen := by
  rw [encodeRevert, slice_append (by simp) (by simp), ofBe_toBe event.reasonLen_lt]

theorem reason_encodeRevert (event : RevertEvent) (timestampMs : UInt64) :
    slice (encodeRevert event timestampMs) 74 (74 + event.reasonLen) =
      event.reasonBytes.take event.reasonLen := by
  rw [encodeRevert, slice_append_right (by simp) (by rw [event.length_reason])]

theorem decodeReason_encodeRevert (event : RevertEvent) (timestampMs : UInt64) :
    decodeReason (encodeRevert event timestampMs) = event.persistedReason := by
  simp only [decodeReason, reasonLen_encodeRevert, reason_encodeRevert, length_encodeRevert,
    Nat.le_refl, and_true]
  rfl

theorem decodeRevert_encodeRevert (event : RevertEvent) (timestampMs : UInt64) :
    decodeRevert (encodeRevert event timestampMs) =
      { event with reason := event.persistedReason } := by
  have h0 : slice (encodeRevert event timestampMs) 0 32 = event.txHash.toList := by
    rw [encodeRevert, List.append_assoc, List.append_assoc, List.append_assoc, List.append_assoc,
      List.append_assoc, slice_append_left (by simp)]
  have h32 : slice (encodeRevert event timestampMs) 32 40 = u64ToBeBytes event.blockNumber := by
    rw [encodeRevert, List.append_assoc, List.append_assoc, List.append_assoc, List.append_assoc,
      slice_append (by simp) (by simp)]
  have h40 : slice (encodeRevert event timestampMs) 40 48 = u64ToBeBytes event.gasUsed := by
    rw [encodeRevert, List.append_assoc, List.append_assoc, List.append_assoc,
      slice_append (by simp) (by simp)]
  have h48 : slice (encodeRevert event timestampMs) 48 64 =
      event.effectiveGasPrice.toBeBytes := by
    rw [encodeRevert, List.append_assoc, List.append_assoc, slice_append (by simp) (by simp)]
  rw [decodeRevert, h0, h32, h40, h48, decodeReason_encodeRevert, TxHash.ofBytes_toList,
    u64FromBeBytes_toBeBytes, u64FromBeBytes_toBeBytes, U128.fromBeBytes_toBeBytes]

namespace HistoryEntry

/-- The entry that replay makes of the frame written for an entry. -/
def persisted : HistoryEntry → HistoryEntry
  | .confirmedPair predicted realized => .confirmedPair predicted realized
  | .revertedTx event => .revertedTx { event with reason := event.persistedReason }

/-- The reason of a revert is `None`, or not empty and at most 65535 bytes long. -/
def Recordable : HistoryEntry → Prop
  | .confirmedPair .. => True
  | .revertedTx event => ∀ s, event.reason = some s → s ≠ "" ∧ (utf8 s).length ≤ 65535

theorem persisted_of_recordable {e : HistoryEntry} (h : e.Recordable) : e.persisted = e := by
  cases e with
  | confirmedPair predicted realized => rfl
  | revertedTx event =>
    suffices hr : event.persistedReason = event.reason by rw [persisted, hr]
    cases hreason : event.reason with
    | none => simp [RevertEvent.persistedReason, RevertEvent.reasonLen, RevertEvent.reasonBytes,
        hreason, utf8]
    | some s =>
      obtain ⟨hne, hle⟩ := h s hreason
      have hbytes : event.reasonBytes = utf8 s := by rw [RevertEvent.reasonBytes, hreason]; rfl
      have hlen : event.reasonLen = (utf8 s).length := by
        rw [RevertEvent.reasonLen, hbytes, Nat.min_eq_left hle]
      have hpos : 0 < (utf8 s).length := List.length_pos_of_ne_nil fun h0 => hne (utf8_eq_nil h0)
      rw [RevertEvent.persistedReason, hlen, if_pos hpos, hbytes, List.take_length, fromUtf8_utf8]

theorem map_persisted_of_recordable {es : List HistoryEntry} (h : ∀ e ∈ es, e.Recordable) :
    es.map persisted = es := by
  rw [List.map_congr_left fun e he => persisted_of_recordable (h e he), List.map_id']

end HistoryEntry

namespace Frame

/-- The frame that is written for an entry. -/
def ofEntry (e : HistoryEntry) (timestampMs : UInt64) : Frame where
  tag := e.tag
  payload := e.encode timestampMs
  parsed := by
    cases e with
    | confirmedPair predicted realized => exact .inl ⟨rfl, length_encodePair ..⟩
    | revertedTx event =>
      exact .inr ⟨rfl, (length_encodeRevert event timestampMs).symm ▸ Nat.le_add_right ..⟩
  length_lt := by
    cases e with
    | confirmedPair predicted realized =>
      rw [HistoryEntry.encode, length_encodePair]
      decide
    | revertedTx event =>
      have := event.reasonLen_lt
      rw [HistoryEntry.encode, length_encodeRevert]
      omega

@[simp] theorem entry_ofEntry (e : HistoryEntry) (timestampMs : UInt64) :
    (ofEntry e timestampMs).entry = e.persisted := by
  cases e with
  | confirmedPair predicted realized =>
    simp [entry, ofEntry, HistoryEntry.tag, HistoryEntry.encode, decodePair_encodePair,
      HistoryEntry.persisted]
  | revertedTx event =>
    have htag : tagRevert ≠ tagPair := by decide
    simp [entry, ofEntry, HistoryEntry.tag, HistoryEntry.encode, decodeRevert_encodeRevert,
      HistoryEntry.persisted, htag]

end Frame

end Driftbrake
