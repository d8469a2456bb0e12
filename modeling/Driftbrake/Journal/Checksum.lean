import Driftbrake.Journal.Lifetime
import Driftbrake.Lib.Crc

/-!
# What the checksum detects

`crc32` is a reflected CRC, so a change confined to four consecutive bytes of a payload changes it
(`crc32_burst_ne`). The tag and the length are not under the checksum, but a pair has one length
only and a revert none that a pair has, so no other tag, and for a pair no other length, makes a
frame of the same bytes. A frame changed in one of these ways is where the replay stops
(`next_overwrite`), and `alteration_detected` says so of the journals that sessions have written.
-/

namespace Driftbrake

open FileSystem

/-! ## The checksum as a register -/

/-- The polynomial of `crc32`. -/
def crcPoly : BitVec 32 := 0xEDB88320

theorem toBitVec_crcBit (crc : UInt32) :
    (crcBit crc).toBitVec = Crc.shift crcPoly crc.toBitVec := by
  have hlow : crc &&& 1 ≠ 0 ↔ crc.toBitVec.getLsbD 0 = true := by
    rw [ne_eq, ← UInt32.toBitVec_inj, UInt32.toBitVec_and]
    have hand : crc.toBitVec &&& 1 = BitVec.setWidth 32 (.ofBool (crc.toBitVec.getLsbD 0)) :=
      BitVec.and_one_eq_setWidth_ofBool_getLsbD
    rw [show (1 : UInt32).toBitVec = 1 from rfl, hand]
    cases crc.toBitVec.getLsbD 0 <;> decide
  rw [crcBit, Crc.shift]
  by_cases h : crc &&& 1 ≠ 0
  · rw [if_pos h, if_pos (hlow.mp h)]
    rfl
  · rw [if_neg h, if_neg (mt hlow.mpr h)]
    rfl

theorem toBitVec_crcByte (crc : UInt32) (byte : UInt8) :
    (crcByte crc byte).toBitVec = Crc.feed crcPoly crc.toBitVec byte := by
  have hrepeat : ∀ k (r : UInt32),
      (Nat.repeat crcBit k r).toBitVec = Crc.shifts crcPoly k r.toBitVec := by
    intro k r
    induction k with
    | zero => rfl
    | succ k ih => rw [Nat.repeat, toBitVec_crcBit, ih, Crc.shifts_succ]
  rw [crcByte, hrepeat]
  rfl

theorem toBitVec_foldl_crcByte (data : List UInt8) (crc : UInt32) :
    (data.foldl crcByte crc).toBitVec = data.foldl (Crc.feed crcPoly) crc.toBitVec := by
  induction data generalizing crc with
  | nil => rfl
  | cons byte data ih => rw [List.foldl_cons, List.foldl_cons, ih, toBitVec_crcByte]

/-- A change confined to four consecutive bytes changes the checksum, whatever is around them. -/
theorem crc32_burst_ne {old new : List UInt8} (hlen : new.length = old.length)
    (h4 : old.length ≤ 4) (hne : new ≠ old) (before after : List UInt8) :
    crc32 (before ++ new ++ after) ≠ crc32 (before ++ old ++ after) := by
  intro h
  have hstate := congrArg UInt32.toBitVec (UInt32.not_inj.mp h)
  rw [toBitVec_foldl_crcByte, toBitVec_foldl_crcByte] at hstate
  exact Crc.foldl_feed_burst_ne (by decide) hlen (by omega) hne before after _ hstate

theorem crc32_overwrite_ne {payload new : List UInt8} {pos : Nat} (h4 : new.length ≤ 4)
    (hle : pos + new.length ≤ payload.length) (hne : overwrite payload pos new ≠ payload) :
    crc32 (overwrite payload pos new) ≠ crc32 payload := by
  obtain ⟨before, old, after, rfl, rfl, hold⟩ := exists_middle hle
  rw [overwrite_middle _ _ _ hold.symm] at hne ⊢
  refine crc32_burst_ne hold.symm (hold ▸ h4) (fun heq => hne ?_) before after
  rw [heq]

/-! ## Changed frames -/

/-- No two tags are parsed with the same length. -/
theorem Parsed.tag_unique {tag tag' : UInt8} {n : Nat} (h : Parsed tag n) (h' : Parsed tag' n) :
    tag = tag' := by
  rcases h with ⟨rfl, _⟩ | ⟨rfl, _⟩ <;> rcases h' with ⟨rfl, _⟩ | ⟨rfl, _⟩
  · rfl
  · omega
  · omega
  · rfl

theorem Parsed.length_pair {n : Nat} (h : Parsed tagPair n) : n = 40 := by
  rcases h with ⟨_, h40⟩ | ⟨htag, _⟩
  · exact h40
  · cases htag

/-- The bytes of a frame in which every change is detected: from the position `i` on, `n` of
them. -/
inductive Frame.Guarded (f : Frame) : (i n : Nat) → Prop
  | tag : f.Guarded 0 1
  | length : f.tag = tagPair → f.Guarded 1 4
  | checksum : f.Guarded 5 4
  | payload : 9 ≤ i → n ≤ 4 → i + n ≤ f.bytes.length → f.Guarded i n

namespace Frame

variable {f g : Frame} {i : Nat} {new rest more : List UInt8}

theorem length_bytes (f : Frame) : f.bytes.length = 9 + f.payload.length := by
  rw [bytes, List.length_append, length_metaBytes]

theorem Guarded.le (h : f.Guarded i n) : i + n ≤ f.bytes.length := by
  have := f.length_bytes
  cases h with
  | payload _ _ hle => exact hle
  | _ => omega

/-- What is read behind nine bytes in front of a payload. -/
theorem next_metaBytes {tag : UInt8} {n : Nat} {crc : UInt32} (hn : n < 2 ^ 32)
    (h : next (metaBytes tag n crc ++ rest) = some (g, more)) :
    g.tag = tag ∧ g.payload.length = n ∧ crc32 g.payload = crc ∧ rest = g.payload ++ more := by
  have heq := next_iff.mp h
  rw [bytes, List.append_assoc] at heq
  obtain ⟨hmeta, hrest⟩ := List.append_inj heq (by simp)
  have htag := congrArg metaTag hmeta
  have hlen := congrArg metaLen hmeta
  have hcrc := congrArg metaCrc hmeta
  rw [← List.append_nil (metaBytes tag n crc), ← List.append_nil (metaBytes g.tag _ _)] at hlen hcrc
  rw [metaLen_metaBytes _ _ _ hn, metaLen_metaBytes _ _ _ g.length_lt] at hlen
  rw [metaCrc_metaBytes, metaCrc_metaBytes] at hcrc
  exact ⟨htag.symm, hlen.symm, hcrc.symm, hrest⟩

theorem overwrite_tag (f : Frame) (tag : UInt8) : overwrite f.bytes 0 [tag] =
    metaBytes tag f.payload.length (crc32 f.payload) ++ f.payload := by
  have hnew : [tag].length = [f.tag].length := rfl
  exact overwrite_middle [] [f.tag] _ hnew

theorem overwrite_length (f : Frame) (h : new.length = 4) : overwrite f.bytes 1 new =
    metaBytes f.tag (ofBe new) (crc32 f.payload) ++ f.payload := by
  have hmiddle := overwrite_middle [f.tag] (toBe 4 f.payload.length)
    (toBe 4 (crc32 f.payload).toNat ++ f.payload) (h.trans (length_toBe ..).symm)
  simpa [bytes, metaBytes, toBe_ofBe h] using hmiddle

theorem overwrite_checksum (f : Frame) (h : new.length = 4) : overwrite f.bytes 5 new =
    metaBytes f.tag f.payload.length (.ofNat (ofBe new)) ++ f.payload := by
  have hlt : ofBe new < 2 ^ 32 := (ofBe_lt new).trans_eq (by rw [h]; rfl)
  have hmiddle := overwrite_middle (f.tag :: toBe 4 f.payload.length)
    (toBe 4 (crc32 f.payload).toNat) f.payload (h.trans (length_toBe ..).symm)
  simpa [bytes, metaBytes, UInt32.toNat_ofNat_of_lt' hlt, toBe_ofBe h] using hmiddle

theorem overwrite_payload (f : Frame) (hi : 9 ≤ i) (hle : i + new.length ≤ f.bytes.length) :
    overwrite f.bytes i new = metaBytes f.tag f.payload.length (crc32 f.payload) ++
      overwrite f.payload (i - 9) new := by
  rw [length_bytes] at hle
  have hpos : i - 9 + new.length ≤ f.payload.length := by omega
  have happend := overwrite_append (metaBytes f.tag f.payload.length (crc32 f.payload)) f.payload []
    hpos
  rw [length_metaBytes, Nat.add_sub_cancel' hi, List.append_nil, List.append_nil] at happend
  exact happend

/-- **A frame with a detected change is no frame**, whatever follows. -/
theorem next_overwrite (hi : f.Guarded i new.length) (hne : overwrite f.bytes i new ≠ f.bytes)
    (rest : List UInt8) : next (overwrite f.bytes i new ++ rest) = none := by
  by_contra hsome
  obtain ⟨⟨g, more⟩, hnext⟩ := Option.ne_none_iff_exists'.mp hsome
  refine hne ?_
  generalize hn : new.length = n at hi
  cases hi with
  | tag =>
    obtain ⟨tag, rfl⟩ := List.length_eq_one_iff.mp hn
    rw [overwrite_tag, List.append_assoc] at hnext
    obtain ⟨htag, hlen, _⟩ := next_metaBytes f.length_lt hnext
    have hparsed := g.parsed
    rw [hlen, htag] at hparsed
    rw [overwrite_tag, hparsed.tag_unique f.parsed, bytes]
  | length hpair =>
    have hlt : ofBe new < 2 ^ 32 := (ofBe_lt new).trans_eq (by rw [hn]; rfl)
    rw [overwrite_length f hn, List.append_assoc] at hnext
    obtain ⟨htag, hlen, _⟩ := next_metaBytes hlt hnext
    have hparsed := g.parsed
    have hparsed' := f.parsed
    rw [hlen, htag, hpair] at hparsed
    rw [hpair] at hparsed'
    rw [overwrite_length f hn, hparsed.length_pair, ← hparsed'.length_pair, bytes]
  | checksum =>
    rw [overwrite_checksum f hn, List.append_assoc] at hnext
    obtain ⟨_, hlen, hcrc, heq⟩ := next_metaBytes f.length_lt hnext
    have hpayload := List.append_inj_left heq hlen.symm
    rw [overwrite_checksum f hn, ← hcrc, ← hpayload, bytes]
  | payload hi h4 hle =>
    subst hn
    rw [overwrite_payload f hi hle, List.append_assoc] at hnext
    obtain ⟨_, hlen, hcrc, heq⟩ := next_metaBytes f.length_lt hnext
    have hle' : i - 9 + new.length ≤ f.payload.length := by
      have := f.length_bytes
      omega
    have hpayload := List.append_inj_left heq ((length_overwrite hle').trans hlen.symm)
    -- a payload with the same checksum is the same
    have hsame : overwrite f.payload (i - 9) new = f.payload := by
      by_contra hdiff
      exact crc32_overwrite_ne h4 hle' hdiff (hpayload ▸ hcrc)
    rw [overwrite_payload f hi hle, hsame, bytes]

end Frame

/-! ## Changed journals -/

/-- A detected change to one of the frames of a journal. -/
structure Alteration (fs : List Frame) where
  k : Nat
  k_lt : k < fs.length
  pos : Nat
  new : List UInt8
  guarded : fs[k].Guarded pos new.length
  changes : overwrite fs[k].bytes pos new ≠ fs[k].bytes

/-- The bytes of the journal after the change. -/
def Alteration.apply (a : Alteration fs) (hd : Header) (bs : List UInt8) : List UInt8 :=
  overwrite bs ((image hd (fs.take a.k)).length + a.pos) a.new

variable {path : Path} {w v : FileSystem Path} {es : List HistoryEntry} {hd hd' : Header}
  {fs fs' : List Frame} {tail tail' : List UInt8}

theorem frames_unique (h : image hd fs ++ tail = image hd' fs' ++ tail')
    (hstop : Frame.next tail = none) (hstop' : Frame.next tail' = none) : fs = fs' := by
  rw [image, image, List.append_assoc, List.append_assoc] at h
  have hrest := List.append_inj_right h (hd.length_bytes.trans hd'.length_bytes.symm)
  have H : frameCode.Decodes (frameCode.encode fs ++ tail) fs tail := ⟨rfl, hstop⟩
  exact H.unique ⟨hrest, hstop'⟩

/-- The changed journal still has the frames in front of the change, and then no frame. -/
theorem Alteration.apply_eq (a : Alteration fs) (hd : Header) (tail : List UInt8) :
    ∃ rest, a.apply hd (image hd fs ++ tail) = hd.bytes ++ rest ∧
      ∃ tail', frameCode.Decodes rest (fs.take a.k) tail' := by
  have hk := a.k_lt
  let changed := overwrite fs[a.k].bytes a.pos a.new
  let behind := frameCode.encode (fs.drop (a.k + 1)) ++ tail
  have hsplit : image hd fs ++ tail = image hd (fs.take a.k) ++ fs[a.k].bytes ++ behind := by
    conv_lhs => rw [← List.take_append_drop a.k fs, List.drop_eq_getElem_cons hk, image_append,
      FrameCode.encode_cons]
    simp [behind, frameCode]
  have happly : a.apply hd (image hd fs ++ tail) = image hd (fs.take a.k) ++ changed ++ behind := by
    rw [Alteration.apply, hsplit, overwrite_append _ _ _ a.guarded.le]
  refine ⟨frameCode.encode (fs.take a.k) ++ (changed ++ behind), ?_, changed ++ behind, rfl,
    Frame.next_overwrite a.guarded a.changes behind⟩
  rw [happly, image, List.append_assoc, List.append_assoc]

/-- **A changed frame is never replayed.** A journal that any sessions have written, and of which
one frame is then changed in its tag, in its checksum, in the length of a pair or in four
consecutive bytes of its payload, is opened with the entries in front of that frame, and cut where
it starts. -/
theorem alteration_detected (H : AfterSessions path w es)
    (hfile : w.lookup path = some (image hd fs ++ tail)) (hstop : Frame.next tail = none)
    (a : Alteration fs) (hchanged : v.lookup path = some (a.apply hd (image hd fs ++ tail)))
    (hlock : Unlocked v path) (max : Nat) (epochMs : UInt64) :
    ∃ journal v', (openOrCreate path max epochMs).run exec v = (.ok journal, v') ∧
      journal.inner.IsOf ((es.take a.k).map (·.persisted)) ∧
      v'.lookup path = some (image hd (fs.take a.k)) := by
  have hne : path ≠ path.lockPath := by
    intro hp
    rw [lookup_eq_none_iff.mpr (hp ▸ hlock)] at hchanged
    cases hchanged
  have hentries : entries fs = es.map (·.persisted) := by
    rcases (H.stored hne).content with ⟨hnone, _⟩ | ⟨_, fs', _, hfile', hstop', hentries⟩
    · rw [hnone] at hfile
      cases hfile
    · rw [frames_unique (Option.some.inj (hfile.symm.trans hfile')) hstop hstop']
      exact hentries
  obtain ⟨rest, hrest, tail', hdecodes⟩ := a.apply_eq hd tail
  have hcontent := contentAt_of_lookup (hchanged.trans (congrArg some hrest))
  obtain ⟨_, v', hrun, hlive, _⟩ := openOrCreate_image max epochMs hlock hcontent hdecodes
  have htake : entries (fs.take a.k) = (es.take a.k).map (·.persisted) := by
    rw [entries, List.map_take, List.map_take, ← hentries]
    rfl
  rw [htake] at hrun
  exact ⟨_, v', hrun, ReconcileHistory.isOf_ofEntries _, hlive.lookup⟩

/-- Two trades. -/
def twoCalls : List JournaledHistory.Call := [⟨0, .trade 100 90⟩, ⟨0, .trade 200 190⟩]

theorem overwrite_realized_ne :
    overwrite (Frame.ofEntry (.trade 200 190) 0).bytes 40 [191] ≠
      (Frame.ofEntry (.trade 200 190) 0).bytes := by
  intro h
  rw [Frame.overwrite_payload _ (by decide) (by decide), Frame.bytes] at h
  have hpayload := List.append_cancel_left h
  revert hpayload
  decide

/-- The realized profit of the second trade changed from 190 to 191. -/
def realizedChanged : Alteration (framesOf twoCalls) where
  k := 1
  k_lt := Nat.one_lt_two
  pos := 40
  new := [191]
  guarded := .payload (by decide) (by decide) (by decide)
  changes := overwrite_realized_ne

theorem alteration_detected_realized : ∃ w journal v',
    AfterSessions driftJournal w [.trade 100 90, .trade 200 190] ∧
      w.lookup driftJournal = some (image (.new 0) (framesOf twoCalls)) ∧
      (openOrCreate driftJournal 100 0).run exec (.ofFile driftJournal
        (realizedChanged.apply (.new 0) (image (.new 0) (framesOf twoCalls)))) =
        (.ok journal, v') ∧
      journal.inner.IsOf [.trade 100 90] := by
  have hunlocked : Unlocked (FileSystem.empty : FileSystem Path) driftJournal := rfl
  have hne := driftJournal_ne_lockPath
  obtain ⟨i, w₁, hopen, hlive, _⟩ := openOrCreate_new 100 0 hunlocked rfl
  obtain ⟨w₂, hcalls, hlive', _⟩ := recordAll_ok hlive twoCalls
  have hafter :=
    AfterSessions.session ⟨100, 0, twoCalls, .clean⟩ (.start rfl hunlocked) hopen hcalls
    (drop_run hlive')
  have hfile := lookup_drop hlive'.lookup hne
  rw [List.nil_append] at hfile
  have hlock : Unlocked (.ofFile driftJournal (realizedChanged.apply (.new 0)
      (image (.new 0) (framesOf twoCalls) ++ []))) driftJournal := by
    rw [Unlocked]
    decide
  obtain ⟨journal, v', hrun, hof, _⟩ := alteration_detected hafter
    (hfile.trans (congrArg some (List.append_nil _).symm)) frameCode.next_nil realizedChanged rfl
    hlock 100 0
  rw [List.append_nil] at hrun
  exact ⟨_, journal, v', hafter, hfile, hrun, hof⟩

end Driftbrake
