import Driftbrake.Journal.Handle

/-!
# Recovery from arbitrary bytes

`open_or_create` on any file content. It fails on a malformed header and nowhere else
(`Malformed`), and otherwise keeps the longest run of well-formed frames behind the header
(`LongestFrames`), which is what the next opening finds again.
-/

namespace Driftbrake

open FileSystem

variable {w : FileSystem Path} {path : Path} {journal : JournaledHistory} {i : Nat}
  {bs rest tail : List UInt8} {hd : Header} {fs : List Frame}

theorem openOrCreate_new (max : Nat) (epochMs : UInt64) (hlock : Unlocked w path)
    (hcontent : contentAt w path = []) :
    ∃ i w', (openOrCreate path max epochMs).run exec w = (.ok ⟨.new, w.fds, path, max⟩, w') ∧
      Live w' ⟨.new, w.fds, path, max⟩ i (image (.new epochMs) []) ∧ OpenedJournal w w' path i ∧
      ∀ v, (openOrCreate path max epochMs).Visits exec w v →
        v.lookup path = w.lookup path ∨
          ∃ c, v.lookup path = some c ∧ (c = [] ∨ c = image (.new epochMs) []) := by
  have himage : image (.new epochMs) [] = header epochMs := List.append_nil _
  rw [himage]
  refine openOrCreate_ok max hlock fun file i => ?_
  rw [hcontent]
  exact recover_new epochMs (.inl rfl) (.inr rfl)

theorem openOrCreate_image (max : Nat) (epochMs : UInt64) (hlock : Unlocked w path)
    (hcontent : contentAt w path = hd.bytes ++ rest) (H : frameCode.Decodes rest fs tail) :
    ∃ i w', (openOrCreate path max epochMs).run exec w =
        (.ok ⟨.ofEntries (entries fs), w.fds, path, max⟩, w') ∧
      Live w' ⟨.ofEntries (entries fs), w.fds, path, max⟩ i (image hd fs) ∧
      OpenedJournal w w' path i ∧
      ∀ v, (openOrCreate path max epochMs).Visits exec w v →
        v.lookup path = w.lookup path ∨
          ∃ c, v.lookup path = some c ∧ (c = hd.bytes ++ rest ∨ c = image hd fs) := by
  refine openOrCreate_ok max hlock fun file i => ?_
  rw [hcontent]
  exact recover_image H (.inl rfl) (.inr rfl)

/-- Bytes with a bad header are refused, and left as they are. -/
theorem openOrCreate_refuses (max : Nat) (epochMs : UInt64) {e : JournalError}
    (hlock : Unlocked w path) (hcontent : contentAt w path = bs) (hbs : bs ≠ [])
    (herr : headerError bs = some e) :
    ∃ w', (openOrCreate path max epochMs).run exec w = (.error e, w') ∧
      w'.lookup path = some bs ∧ Unlocked w' path := by
  have hne : path ≠ path.lockPath := fun hself =>
    hbs (hcontent.symm.trans (contentAt_self hlock hself))
  have hrec : ∀ file i, ∃ pos, Effect (fun _ => True) file i 0 (contentAt w path)
      (recover file epochMs) (.error e) pos (contentAt w path) := by
    intro file i
    rw [hcontent]
    exact recover_error hbs herr trivial
  obtain ⟨w', hrun, hlookup, hunlocked, _⟩ := openOrCreate_error max hlock hne hrec
  exact ⟨w', hrun, hcontent ▸ hlookup, hunlocked⟩

/-! ## What a successful opening says of the file -/

section
variable {max : Nat} {epochMs : UInt64} {w' : FileSystem Path}

theorem unlocked_of_opened (h : (openOrCreate path max epochMs).run exec w = (.ok journal, w')) :
    Unlocked w path := by
  by_contra hlock
  obtain ⟨i, hi⟩ := Option.ne_none_iff_exists'.mp hlock
  have hrefused := (Prog.run_step (exec_createNew_some hi)).symm.trans h
  cases congrArg Prod.fst hrefused

/-- The file is absent or empty, or has a header and frames. -/
theorem content_of_opened (h : (openOrCreate path max epochMs).run exec w = (.ok journal, w')) :
    (contentAt w path = [] ∧ journal.inner = .new) ∨
      ∃ hd fs tail, contentAt w path = image hd fs ++ tail ∧ Frame.next tail = none ∧
        journal.inner = .ofEntries (entries fs) := by
  have hlock := unlocked_of_opened h
  by_cases hnil : contentAt w path = []
  · obtain ⟨_, w', hrun, _⟩ := openOrCreate_new max epochMs hlock hnil
    cases h.symm.trans hrun
    exact .inl ⟨hnil, rfl⟩
  · have hvalid : headerError (contentAt w path) = none := by
      by_contra herr
      obtain ⟨e, he⟩ := Option.ne_none_iff_exists'.mp herr
      obtain ⟨_, hrun, _⟩ := openOrCreate_refuses max epochMs hlock rfl hnil he
      cases congrArg Prod.fst (h.symm.trans hrun)
    obtain ⟨hd, rest, hcontent⟩ := exists_header hvalid
    obtain ⟨fs, tail, H⟩ := frameCode.exists_decodes rest
    obtain ⟨_, w', hrun, _⟩ := openOrCreate_image max epochMs hlock hcontent H
    cases h.symm.trans hrun
    refine .inr ⟨hd, fs, tail, ?_, H.stop, rfl⟩
    rw [hcontent, H.eq, image, List.append_assoc]

end

/-! ## Closing and opening again -/

theorem reopen_run (max : Nat) (epochMs : UInt64) (h : (w.dir journal.path.lockPath).isSome) :
    (journal.reopen max epochMs).run exec w = (openOrCreate journal.path max epochMs).run exec
      ((w.closeFd journal.file).unlink journal.path.lockPath) := by
  exact Prog.run_seq (drop_run_of_locked h)

/-- A journal at its own lock path is new when it is opened again. -/
theorem reopen_self (max : Nat) (epochMs : UInt64) (h : (w.dir journal.path.lockPath).isSome)
    (hself : journal.path = journal.path.lockPath) :
    ∃ fd w', (journal.reopen max epochMs).run exec w = (.ok ⟨.new, fd, journal.path, max⟩, w') := by
  have hlock := unlocked_drop w journal.path journal.file
  obtain ⟨_, w', hrun, _⟩ := openOrCreate_new max epochMs hlock (contentAt_self hlock hself)
  exact ⟨_, w', (reopen_run max epochMs h).trans hrun⟩

theorem reopen_refuses (max : Nat) (epochMs : UInt64) {e : JournalError}
    (h : (w.dir journal.path.lockPath).isSome) (hne : journal.path ≠ journal.path.lockPath)
    (hbs : w.lookup journal.path = some bs) (hnil : bs ≠ []) (herr : headerError bs = some e) :
    ∃ w', (journal.reopen max epochMs).run exec w = (.error e, w') := by
  have hcontent := contentAt_of_lookup (lookup_drop hbs hne)
  obtain ⟨w', hrun, _⟩ := openOrCreate_refuses max epochMs
    (unlocked_drop w journal.path journal.file) hcontent hnil herr
  exact ⟨w', (reopen_run max epochMs h).trans hrun⟩

/-- A journal that is closed and opened again finds the frames in its file. -/
theorem reopen_ok (max : Nat) (epochMs : UInt64) (h : (w.dir journal.path.lockPath).isSome)
    (hne : journal.path ≠ journal.path.lockPath)
    (himage : w.lookup journal.path = some (image hd fs ++ tail)) (hstop : Frame.next tail = none) :
    ∃ i' fd w', (journal.reopen max epochMs).run exec w =
        (.ok ⟨.ofEntries (entries fs), fd, journal.path, max⟩, w') ∧
      Live w' ⟨.ofEntries (entries fs), fd, journal.path, max⟩ i' (image hd fs) := by
  have hcontent : contentAt ((w.closeFd journal.file).unlink journal.path.lockPath) journal.path =
      hd.bytes ++ (frameCode.encode fs ++ tail) := by
    rw [contentAt_of_lookup (lookup_drop himage hne), image, List.append_assoc]
  obtain ⟨i', w', hrun, hlive, _⟩ := openOrCreate_image max epochMs
    (unlocked_drop w journal.path journal.file) hcontent ⟨rfl, hstop⟩
  exact ⟨i', _, w', (reopen_run max epochMs h).trans hrun, hlive⟩

/-! ## Any content -/

/-- The contents that `open_or_create` refuses. -/
def Malformed (bs : List UInt8) : Prop :=
  bs ≠ [] ∧ (bs.length < 16 ∨ bs.take 4 ≠ magic ∨ ofBe (slice bs 4 6) ≠ currentVersion)

theorem malformed_iff : Malformed bs ↔ bs ≠ [] ∧ ∃ e, headerError bs = some e := by
  refine and_congr_right fun _ => ?_
  rw [headerError]
  by_cases hlen : bs.length < 16
  · simp [hlen]
  by_cases hmagic : bs.take 4 = magic
  · by_cases hversion : ofBe (slice bs 4 6) = currentVersion
    · simp [hlen, hmagic, hversion]
    · simp [hlen, hmagic, hversion]
  · simp [hlen, hmagic]

/-- `fs` is the longest run of well-formed frames at the front of `rest`. -/
structure LongestFrames (rest : List UInt8) (fs : List Frame) : Prop where
  at_front : frameCode.encode fs <+: rest
  longest : ∀ gs, frameCode.encode gs <+: rest → frameCode.encode gs <+: frameCode.encode fs

theorem longestFrames (H : frameCode.Decodes rest fs tail) : LongestFrames rest fs where
  at_front := ⟨tail, H.eq.symm⟩
  longest gs hgs := by
    obtain ⟨more, rfl⟩ := H.prefix_of_encode hgs
    rw [FrameCode.encode_append]
    exact List.prefix_append _ _

/-- The header behind which the frames are looked for: a new one in an empty file. -/
def headerOf (bs : List UInt8) (epochMs : UInt64) : List UInt8 :=
  if bs = [] then header epochMs else bs.take 16

/-- Every content that is not refused has a header and a longest run of frames. -/
theorem exists_open (max : Nat) (epochMs : UInt64) (hlock : Unlocked w path)
    (hcontent : contentAt w path = bs) (h : ¬Malformed bs) :
    ∃ (hd : Header) (fs : List Frame) (i : Nat) (w' : FileSystem Path),
      hd.bytes = headerOf bs epochMs ∧ LongestFrames (bs.drop 16) fs ∧
      (openOrCreate path max epochMs).run exec w =
        (.ok ⟨.ofEntries (entries fs), w.fds, path, max⟩, w') ∧
      Live w' ⟨.ofEntries (entries fs), w.fds, path, max⟩ i (image hd fs) := by
  by_cases hnil : bs = []
  · subst hnil
    obtain ⟨i, w', hrun, hlive, _⟩ := openOrCreate_new max epochMs hlock hcontent
    refine ⟨.new epochMs, [], i, w', rfl, ?_, hrun, hlive⟩
    exact longestFrames (FrameCode.decodes_encode [])
  · have hvalid : headerError bs = none := by
      by_contra herr
      exact h (malformed_iff.mpr ⟨hnil, Option.ne_none_iff_exists'.mp herr⟩)
    obtain ⟨hd, rest, rfl⟩ := exists_header hvalid
    obtain ⟨fs, tail, H⟩ := frameCode.exists_decodes rest
    obtain ⟨i, w', hrun, hlive, _⟩ := openOrCreate_image max epochMs hlock hcontent H
    refine ⟨hd, fs, i, w', ?_, ?_, hrun, hlive⟩
    · rw [headerOf, if_neg hnil, ← hd.length_bytes, List.take_left]
    · rw [← hd.length_bytes, List.drop_left]
      exact longestFrames H

/-- **Recovery from arbitrary bytes.** Opening an unlocked file of any content fails just when the
content is malformed, and then leaves the bytes and no lock behind; otherwise it recovers the
longest run of frames and cuts the file behind it. Opening again after a close changes nothing, and
what calls add to the recovered journal is found behind the recovered entries. -/
theorem openOrCreate_recovers (hfile : w.lookup path = some bs) (hlock : Unlocked w path)
    (max : Nat) (epochMs : UInt64) :
    (Malformed bs → ∃ e w', (openOrCreate path max epochMs).run exec w = (.error e, w') ∧
      w'.lookup path = some bs ∧ Unlocked w' path) ∧
    (¬Malformed bs → ∃ journal w' fs,
      (openOrCreate path max epochMs).run exec w = (.ok journal, w') ∧
      LongestFrames (bs.drop 16) fs ∧ journal.inner = .ofEntries (entries fs) ∧
      w'.lookup path = some (headerOf bs epochMs ++ frameCode.encode fs) ∧
      (∀ max' epochMs', ∃ journal' w'',
        (journal.reopen max' epochMs').run exec w' = (.ok journal', w'') ∧
        journal'.inner = journal.inner ∧ w''.lookup path = w'.lookup path) ∧
      ∀ calls max' epochMs', ∃ called wc journal' w'',
        (journal.recordAll calls).run exec w' = ((.ok (), called), wc) ∧
        (called.reopen max' epochMs').run exec wc = (.ok journal', w'') ∧
        journal'.inner = .ofEntries (entries fs ++ calls.map (·.entry.persisted))) := by
  have hcontent := contentAt_of_lookup hfile
  have hne : path ≠ path.lockPath := by
    intro hp
    have hnone : w.dir path = none := by rw [hp]; exact hlock
    rw [FileSystem.lookup, hnone] at hfile
    cases hfile
  constructor
  · intro hbad
    obtain ⟨hnil, e, he⟩ := malformed_iff.mp hbad
    exact ⟨e, openOrCreate_refuses max epochMs hlock hcontent hnil he⟩
  · intro hgood
    obtain ⟨hd, fs, i, w', hhead, hlongest, hrun, hlive⟩ :=
      exists_open max epochMs hlock hcontent hgood
    have hlookup : w'.lookup path = some (image hd fs) := hlive.lookup
    refine ⟨_, w', fs, hrun, hlongest, rfl, hhead ▸ hlookup, fun max' epochMs' => ?_,
      fun calls max' epochMs' => ?_⟩
    · rw [← List.append_nil (image hd fs)] at hlive
      obtain ⟨i', fd, w'', hreopen, hlive'⟩ :=
        reopen_ok max' epochMs' hlive.locked hne hlive.lookup frameCode.next_nil
      have hlookup' : w''.lookup path = some (image hd fs) := hlive'.lookup
      exact ⟨_, w'', hreopen, rfl, hlookup'.trans hlookup.symm⟩
    · obtain ⟨wc, hcalls, hlive', _⟩ := recordAll_ok hlive calls
      rw [← List.append_nil (image hd _)] at hlive'
      obtain ⟨i', fd, w'', hreopen, _⟩ :=
        reopen_ok max' epochMs' hlive'.locked hne hlive'.lookup frameCode.next_nil
      refine ⟨_, wc, _, w'', hcalls, hreopen, ?_⟩
      rw [← entries_framesOf, ← entries_append]

/-- A header with four zero bytes behind it. -/
theorem openOrCreate_recovers_zero_tail : ∃ journal w' fs,
    (openOrCreate driftJournal 100 0).run exec (.ofFile driftJournal (header 7 ++ [0, 0, 0, 0])) =
      (.ok journal, w') ∧
    LongestFrames [0, 0, 0, 0] fs ∧ journal.inner = .ofEntries (entries fs) ∧
    w'.lookup driftJournal = some (header 7 ++ frameCode.encode fs) := by
  have hfile : (ofFile driftJournal (header 7 ++ [0, 0, 0, 0])).lookup driftJournal =
      some (header 7 ++ [0, 0, 0, 0]) := rfl
  have hlock : Unlocked (ofFile driftJournal (header 7 ++ [0, 0, 0, 0])) driftJournal := by
    rw [Unlocked]
    decide
  have hgood : ¬Malformed (header 7 ++ [0, 0, 0, 0]) := by
    rw [Malformed]
    decide
  obtain ⟨journal, w', fs, hrun, hfs, hinner, hlookup, _⟩ :=
    (openOrCreate_recovers hfile hlock 100 0).2 hgood
  exact ⟨journal, w', fs, hrun, hfs, hinner, hlookup⟩

end Driftbrake
