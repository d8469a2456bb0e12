import Driftbrake.Journal.Journal
import Driftbrake.Lib.HandleLogic
import Driftbrake.Lib.Typestate

/-!
# Opening a journal file

The effect of the replay loop on an open file: whatever follows the header decodes to a list of
frames and a tail that does not start with one, the loop applies the entries of the frames and cuts
the tail off (`replay_effect`).
-/

namespace Driftbrake

open FileSystem

variable {S : List UInt8 → Prop} {file i pos fuel : Nat} {pre rest tail : List UInt8}
  {fs : List Frame} {inner : ReconcileHistory}

theorem truncateTo_effect (hS : S (pre ++ rest)) (hS' : S pre) :
    Effect S file i pos (pre ++ rest) (truncateTo file pre.length) (.ok ()) pre.length pre :=
  (Effect.attempt_ok acts_setLen hS hS').bind (.attempt_ok acts_seekStart hS' hS')

/-- Where no frame starts, the loop stops and truncates, in one of five ways. -/
theorem replay_stop (hn : Frame.next rest = none) (hS : S (pre ++ rest)) (hS' : S pre) :
    Effect S file i pre.length (pre ++ rest) (replay file (fuel + 1) pre.length inner) (.ok inner)
      pre.length pre := by
  have hstop : ∀ {pos}, Effect S file i pos (pre ++ rest)
      (do truncateTo file pre.length; pure inner) (.ok inner) pre.length pre :=
    (truncateTo_effect hS hS').bind (.pure inner hS')
  by_cases h9 : rest.length < 9
  · exact (Effect.lift (acts_readExact_eof h9) hS hS).bind hstop
  obtain ⟨head, more, rfl, hhead⟩ : ∃ head more, rest = head ++ more ∧ head.length = 9 :=
    ⟨rest.take 9, rest.drop 9, (List.take_append_drop 9 rest).symm, by
      rw [List.length_take]; omega⟩
  refine (Effect.lift (acts_readExact hhead) hS hS).bind ?_
  rw [← List.append_assoc] at hS hstop ⊢
  by_cases hlen : more.length < metaLen head
  · exact (Effect.lift (acts_readExact_eof hlen) hS hS).bind hstop
  obtain ⟨payload, post, rfl, hpayload⟩ :
      ∃ payload post, more = payload ++ post ∧ payload.length = metaLen head :=
    ⟨more.take (metaLen head), more.drop (metaLen head), (List.take_append_drop _ more).symm, by
      rw [List.length_take]; omega⟩
  refine (Effect.lift (acts_readExact hpayload) hS hS).bind ?_
  by_cases hcrc : crc32 payload = metaCrc head
  · have hparsed : ¬Parsed (metaTag head) (metaLen head) := by
      intro hparsed
      obtain ⟨f, hf⟩ := Frame.exists_bytes_eq hhead hpayload hcrc hparsed
      rw [← List.append_assoc, ← hf, Frame.next_bytes_append] at hn
      cases hn
    rw [Parsed, not_or] at hparsed
    dsimp only
    rw [if_neg (not_not.mpr hcrc), if_neg hparsed.1, if_neg hparsed.2]
    exact hstop
  · dsimp only
    rw [if_pos hcrc]
    exact hstop

/-- Where a frame starts, the loop applies its entry and goes on behind it. -/
theorem replay_step {f : Frame} {r : Except JournalError ReconcileHistory} {bs : List UInt8}
    (hS : S (pre ++ f.bytes ++ rest))
    (hnext : Effect S file i (pre ++ f.bytes).length (pre ++ f.bytes ++ rest)
      (replay file fuel (pre ++ f.bytes).length (inner.apply f.entry)) r pos bs) :
    Effect S file i pre.length (pre ++ f.bytes ++ rest) (replay file (fuel + 1) pre.length inner) r
      pos bs := by
  have hsplit : pre ++ f.bytes ++ rest =
      pre ++ (metaBytes f.tag f.payload.length (crc32 f.payload) ++ (f.payload ++ rest)) := by
    simp [Frame.bytes]
  have hlen : metaLen (metaBytes f.tag f.payload.length (crc32 f.payload)) = f.payload.length := by
    rw [← List.append_nil (metaBytes ..), metaLen_metaBytes _ _ _ f.length_lt]
  have hcrc : metaCrc (metaBytes f.tag f.payload.length (crc32 f.payload)) = crc32 f.payload := by
    rw [← List.append_nil (metaBytes ..), metaCrc_metaBytes]
  have hpos : Effect S file i (pre ++ f.bytes).length (pre ++ f.bytes ++ rest)
      (do
        let validOffset ← io (.streamPosition file)
        replay file fuel validOffset (inner.apply f.entry)) r pos bs :=
    (Effect.attempt_ok acts_streamPosition hS hS).bind hnext
  rw [hsplit] at hS hpos ⊢
  refine (Effect.lift (acts_readExact (length_metaBytes ..)) hS hS).bind ?_
  rw [← List.append_assoc] at hS hpos ⊢
  refine (Effect.lift (acts_readExact hlen.symm) hS hS).bind ?_
  rw [show pre ++ metaBytes f.tag f.payload.length (crc32 f.payload) ++ f.payload = pre ++ f.bytes
    from List.append_assoc ..]
  dsimp only
  rw [if_neg (not_not.mpr hcrc.symm), hlen]
  rcases f.parsed with ⟨htag, h40⟩ | ⟨htag, h74⟩
  · have happly : inner.apply f.entry =
        inner.append (decodePair f.payload).1 (decodePair f.payload).2 := by
      rw [Frame.entry, if_pos htag]
      rfl
    rw [if_pos ⟨htag, h40⟩]
    rw [happly] at hpos
    exact hpos
  · have hne : tagRevert ≠ tagPair := by decide
    have happly : inner.apply f.entry = inner.recordRevert (decodeRevert f.payload) := by
      rw [Frame.entry, if_neg (htag ▸ hne)]
      rfl
    rw [if_neg fun h => hne (htag ▸ h.1), if_pos ⟨htag, h74⟩]
    rw [happly] at hpos
    exact hpos

/-- The loop applies the entries of the frames and truncates behind the last one. -/
theorem replay_effect (H : frameCode.Decodes rest fs tail) (hfuel : fs.length < fuel)
    (hS : S (pre ++ rest)) (hS' : S (pre ++ frameCode.encode fs)) :
    Effect S file i pre.length (pre ++ rest) (replay file fuel pre.length inner)
      (.ok ((fs.map Frame.entry).foldl ReconcileHistory.apply inner))
      (pre ++ frameCode.encode fs).length (pre ++ frameCode.encode fs) := by
  induction fs generalizing pre rest inner fuel with
  | nil =>
    obtain ⟨fuel, rfl⟩ : ∃ n, fuel = n + 1 := ⟨fuel - 1, by omega⟩
    rw [FrameCode.encode_nil, List.append_nil] at hS' ⊢
    exact replay_stop (H.eq ▸ H.stop) hS hS'
  | cons f fs ih =>
    obtain ⟨fuel, rfl⟩ : ∃ n, fuel = n + 1 := ⟨fuel - 1, by omega⟩
    have hcons : frameCode.encode (f :: fs) = f.bytes ++ frameCode.encode fs := rfl
    have hrest : rest = f.bytes ++ (frameCode.encode fs ++ tail) := by
      rw [H.eq, hcons, List.append_assoc]
    rw [hrest, ← List.append_assoc] at hS ⊢
    rw [hcons, ← List.append_assoc pre f.bytes (frameCode.encode fs)] at hS' ⊢
    exact replay_step hS (ih ⟨rfl, H.stop⟩ (Nat.lt_of_succ_lt_succ hfuel) hS hS')

/-- The loop reads, asks for the position and truncates. -/
theorem replay_uses {φ : {β : Type} → FsOp Path β → Prop} {E : JournalError → Prop}
    (hread : ∀ n, φ (.readExact file n)) (hpos : φ (.streamPosition file))
    (hset : ∀ n, φ (.setLen file n)) (hseek : ∀ n, φ (.seekStart file n)) (hE : ∀ e, E (.io e))
    (validOffset : Nat) (inner : ReconcileHistory) :
    (replay file fuel validOffset inner).run.Uses φ (Prog.OnError E) := by
  induction fuel generalizing validOffset inner with
  | zero => exact Prog.uses_pureE _
  | succ fuel ih =>
    have hstop : (truncateTo file validOffset >>= fun _ => pure inner).run.Uses φ
        (Prog.OnError E) :=
      ((Prog.uses_attempt (hset _) hE).bindE fun _ => Prog.uses_attempt (hseek _) hE).bindE
        fun _ => Prog.uses_pureE _
    have hgo : ∀ inner : ReconcileHistory,
        (io (.streamPosition file) >>= fun n => replay file fuel n inner).run.Uses φ
          (Prog.OnError E) :=
      fun inner => (Prog.uses_attempt hpos hE).bindE fun n => ih n inner
    rw [replay]
    refine (Prog.uses_liftE (hread _)).bindE fun read => ?_
    rcases read with e | meta9
    · cases e <;> first | exact hstop | exact Prog.uses_throwE (hE _)
    refine (Prog.uses_liftE (hread _)).bindE fun read => ?_
    rcases read with e | payload
    · cases e <;> first | exact hstop | exact Prog.uses_throwE (hE _)
    dsimp only
    split
    · exact hstop
    split
    · exact hgo _
    split
    · exact hgo _
    · exact hstop

/-! ## The header -/

/-- A header that `open_or_create` accepts. -/
structure Header where
  bytes : List UInt8
  length_bytes : bytes.length = 16
  magic_eq : bytes.take 4 = magic
  version_eq : ofBe (slice bytes 4 6) = currentVersion

/-- The header of a new journal. -/
def Header.new (epochMs : UInt64) : Header where
  bytes := header epochMs
  length_bytes := by simp [header, magic]
  magic_eq := rfl
  version_eq := rfl

/-- What `open_or_create` says of the first bytes of a file that is not empty. -/
def headerError (bs : List UInt8) : Option JournalError :=
  if bs.length < 16 then some (.io .unexpectedEof)
  else if bs.take 4 ≠ magic then some .invalidMagic
  else if ofBe (slice bs 4 6) ≠ currentVersion then
    some (.unsupportedVersion (ofBe (slice bs 4 6)))
  else none

/-- A journal file: its header and its frames. -/
def image (h : Header) (fs : List Frame) : List UInt8 := h.bytes ++ frameCode.encode fs

/-- The entries that the frames of a journal file hold. -/
def entries (fs : List Frame) : List HistoryEntry := fs.map Frame.entry

@[simp] theorem entries_append (fs gs : List Frame) :
    entries (fs ++ gs) = entries fs ++ entries gs := List.map_append

theorem exists_header {bs : List UInt8} (h : headerError bs = none) :
    ∃ (hd : Header) (rest : List UInt8), bs = hd.bytes ++ rest := by
  rw [headerError] at h
  split at h
  · cases h
  rename_i hlen
  split at h
  · cases h
  rename_i hmagic
  split at h
  · cases h
  rename_i hversion
  refine ⟨⟨bs.take 16, ?_, ?_, ?_⟩, bs.drop 16, (List.take_append_drop 16 bs).symm⟩
  · rw [List.length_take]
    omega
  · rw [List.take_take]
    exact not_not.mp hmagic
  · rw [slice, List.drop_take, List.take_take]
    exact not_not.mp hversion

theorem recover_of_load {epochMs : UInt64} {bs bs' : List UInt8} {inner : ReconcileHistory}
    (h : Effect S file i 0 bs (load file bs.length epochMs) (.ok inner) pos bs') (hS : S bs)
    (hS' : S bs') :
    Effect S file i 0 bs (recover file epochMs) (.ok inner) bs'.length bs' :=
  (Effect.attempt_ok acts_len hS hS).bind
    (h.bind ((Effect.attempt_ok acts_seekEnd hS' hS').bind (.pure _ hS')))

theorem load_new (epochMs : UInt64) (hS : S []) (hS' : S (header epochMs)) :
    Effect S file i 0 [] (load file 0 epochMs) (.ok .new) (header epochMs).length
      (header epochMs) := by
  rw [load, if_pos rfl]
  exact (Effect.attempt_ok (acts_writeAll_start _) hS hS').bind
    ((Effect.attempt_ok acts_flush hS' hS').bind (.pure _ hS'))

/-- A new file gets a header. -/
theorem recover_new (epochMs : UInt64) (hS : S []) (hS' : S (header epochMs)) :
    Effect S file i 0 [] (recover file epochMs) (.ok .new) (header epochMs).length
      (header epochMs) :=
  recover_of_load (load_new epochMs hS hS') hS hS'

/-- A file with a bad header is an error and is left alone. -/
theorem recover_error {epochMs : UInt64} {bs : List UInt8} {e : JournalError} (hne : bs ≠ [])
    (h : headerError bs = some e) (hS : S bs) :
    ∃ pos, Effect S file i 0 bs (recover file epochMs) (.error e) pos bs := by
  suffices hload : ∃ pos, Effect S file i 0 bs (load file bs.length epochMs) (.error e) pos bs by
    obtain ⟨pos, hload⟩ := hload
    exact ⟨pos, (Effect.attempt_ok acts_len hS hS).bind hload.bind_error⟩
  rw [load, if_neg (mt List.length_eq_zero_iff.mp hne)]
  by_cases hlen : bs.length < 16
  · rw [headerError, if_pos hlen] at h
    cases h
    exact ⟨_, (Effect.attempt_ok acts_seekStart hS hS).bind
      (Effect.attempt_error (acts_readExact_eof_start hlen) hS hS).bind_error⟩
  · rw [headerError, if_neg hlen] at h
    obtain ⟨head, rest, rfl, hhead⟩ : ∃ head rest, bs = head ++ rest ∧ head.length = headerSize :=
      ⟨bs.take 16, bs.drop 16, (List.take_append_drop 16 bs).symm, by
        rw [List.length_take, headerSize]; omega⟩
    have htake : (head ++ rest).take 4 = head.take 4 :=
      List.take_append_of_le_length (by rw [hhead, headerSize]; decide)
    have hslice : slice (head ++ rest) 4 6 = slice head 4 6 := by
      rw [slice, slice, List.drop_append_of_le_length (by rw [hhead, headerSize]; decide),
        List.take_append_of_le_length (by rw [List.length_drop, hhead, headerSize]; decide)]
    rw [htake, hslice] at h
    refine ⟨head.length, (Effect.attempt_ok acts_seekStart hS hS).bind
      ((Effect.attempt_ok (acts_readExact_start hhead) hS hS).bind ?_)⟩
    dsimp only
    split at h
    · rename_i hmagic
      cases h
      rw [if_pos hmagic]
      exact .throw _ hS
    · rename_i hmagic
      rw [if_neg hmagic]
      split at h
      · rename_i hversion
        cases h
        rw [if_pos hversion]
        exact .throw _ hS
      · cases h

/-- A file with a good header is replayed and loses its tail. -/
theorem recover_image {epochMs : UInt64} {hd : Header} (H : frameCode.Decodes rest fs tail)
    (hS : S (hd.bytes ++ rest)) (hS' : S (image hd fs)) :
    Effect S file i 0 (hd.bytes ++ rest) (recover file epochMs) (.ok (.ofEntries (entries fs)))
      (image hd fs).length (image hd fs) := by
  have hlen : hd.bytes.length = headerSize := hd.length_bytes
  have hfuel : fs.length < (hd.bytes ++ rest).length := by
    have := frameCode.length_le_length_encode fs
    rw [H.eq, List.length_append, List.length_append, hd.length_bytes]
    omega
  suffices hload : Effect S file i 0 (hd.bytes ++ rest)
      (load file (hd.bytes ++ rest).length epochMs) (.ok (.ofEntries (entries fs)))
      (image hd fs).length (image hd fs) from recover_of_load hload hS hS'
  rw [load, if_neg (by rw [List.length_append, hd.length_bytes]; omega)]
  refine (Effect.attempt_ok acts_seekStart hS hS).bind
    ((Effect.attempt_ok (acts_readExact_start hlen) hS hS).bind ?_)
  dsimp only
  rw [if_neg (not_not.mpr hd.magic_eq), if_neg (not_not.mpr hd.version_eq), ← hlen]
  exact replay_effect H hfuel hS hS'

end Driftbrake
