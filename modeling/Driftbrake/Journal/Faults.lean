import Driftbrake.Journal.Lifetime

/-!
# Calls that fail in the middle of a write

A call whose writes fail leaves a strict prefix of its frame at the end of the file and the handle
behind it; nothing takes it back, so the frame of a later call is written behind the leftover bytes.
The replay stops at those, and the later call is lost although it was acknowledged
(`torn_call_loses_the_next`). What was acknowledged survives in every run in which no call writes
behind a partly written frame (`acknowledged_survive`).
-/

namespace Driftbrake

open FileSystem

open JournaledHistory (Call)

/-- A call, with the number of bytes of its frame that reach the file if its writes fail. -/
structure Attempt where
  call : Call
  recordable : call.entry.Recordable
  fault : Option Nat
  fault_lt : ∀ k ∈ fault, k < (Frame.ofEntry call.entry call.timestampMs).bytes.length

/-- The state of a run on one open journal, with the entries of the calls that returned `Ok`. -/
structure FaultyRun where
  journal : JournaledHistory
  world : FileSystem Path
  acknowledged : List HistoryEntry

/-- One call. -/
def FaultyRun.step (r : FaultyRun) (a : Attempt) : FaultyRun :=
  match (r.journal.record a.call.timestampMs a.call.entry).run execFailing (r.world, a.fault) with
  | ((.ok (), journal), world, _) => ⟨journal, world, r.acknowledged ++ [a.call.entry]⟩
  | ((.error _, journal), world, _) => ⟨journal, world, r.acknowledged⟩

/-- Closing and reopening the journal recovers `es` and the acknowledged entries, which is what its
memory holds. -/
def FaultyRun.Recovers (r : FaultyRun) (es : List HistoryEntry) : Prop :=
  ∀ max epochMs, ∃ journal world,
    (r.journal.reopen max epochMs).run exec r.world = (.ok journal, world) ∧
    journal.inner.IsOf (es ++ r.acknowledged) ∧ journal.inner = r.journal.inner

/-- No call writes behind a frame that was written in part. -/
def NothingBehindTorn : List Attempt → Prop
  | [] => True
  | a :: as =>
    match a.fault with
    | none | some 0 => NothingBehindTorn as
    | some (_ + 1) => ∀ b ∈ as, b.fault = some 0

variable {w : FileSystem Path} {journal : JournaledHistory} {i k : Nat} {bs tail : List UInt8}
  {hd : Header} {fs : List Frame}

theorem execFailing_room {new : List UInt8} {fd : Nat} {w' : FileSystem Path}
    (h : exec (.writeAll fd new) w = (.ok (), w')) (hk : new.length ≤ k) :
    execFailing (.writeAll fd new) (w, some k) = (.ok (), w', some (k - new.length)) := by
  simp only [execFailing, if_pos hk, h]

theorem execFailing_torn {new : List UInt8} {fd : Nat} {w' : FileSystem Path}
    (h : exec (.writeAll fd (new.take k)) w = (.ok (), w')) (hk : k < new.length) :
    execFailing (.writeAll fd new) (w, some k) = (.error .writeZero, w', some 0) := by
  simp only [execFailing, if_neg (Nat.not_le.mpr hk), h]

theorem io_room {new : List UInt8} {fd : Nat} {w' : FileSystem Path}
    (h : exec (.writeAll fd new) w = (.ok (), w')) (hk : new.length ≤ k) :
    (io (.writeAll fd new)).run.run execFailing (w, some k) =
      (.ok (), w', some (k - new.length)) := by
  rw [Prog.run_attempt, execFailing_room h hk]
  rfl

theorem io_torn {new : List UInt8} {fd : Nat} {w' : FileSystem Path}
    (h : exec (.writeAll fd (new.take k)) w = (.ok (), w')) (hk : k < new.length) :
    (io (.writeAll fd new)).run.run execFailing (w, some k) =
      (.error (.io .writeZero), w', some 0) := by
  rw [Prog.run_attempt, execFailing_torn h hk]
  rfl

/-- The write that fails is that of the nine bytes in front or that of the payload. -/
theorem writeFrame_torn {file : Nat} {tag : UInt8} {payload : List UInt8}
    (h : w.OpenAt file i bs.length bs)
    (hk : k < (metaBytes tag payload.length (crc32 payload) ++ payload).length) :
    ∃ w', (writeFrame file tag payload).run.run execFailing (w, some k) =
        (.error (.io .writeZero), w', some 0) ∧
      w'.OpenAt file i
        (bs ++ (metaBytes tag payload.length (crc32 payload) ++ payload).take k).length
        (bs ++ (metaBytes tag payload.length (crc32 payload) ++ payload).take k) ∧
      SameBut file i w w' := by
  rw [writeFrame]
  generalize metaBytes tag payload.length (crc32 payload) = head at hk ⊢
  by_cases hhead : k < head.length
  · obtain ⟨w', hexec, hat, hsame⟩ := acts_writeAll (head.take k) w h
    rw [List.take_append_of_le_length hhead.le]
    exact ⟨w', by rw [Prog.run_bindE, io_torn hexec hhead], hat, hsame⟩
  · have hle : head.length ≤ k := Nat.not_lt.mp hhead
    obtain ⟨w₁, hexec, hat, hsame⟩ := acts_writeAll head w h
    obtain ⟨w', hexec', hat', hsame'⟩ := acts_writeAll (payload.take (k - head.length)) w₁ hat
    have hk' : k - head.length < payload.length := by
      rw [List.length_append] at hk
      omega
    rw [List.take_append, List.take_of_length_le hle, ← List.append_assoc]
    refine ⟨w', ?_, hat', hsame.trans hsame'⟩
    rw [Prog.run_bindE, io_room hexec hle]
    exact io_torn hexec' hk'

/-- A call whose writes fail after `k` bytes leaves these at the end of the file. -/
theorem record_torn (h : Live w journal i bs) (e : HistoryEntry) (timestampMs : UInt64)
    (hk : k < (Frame.ofEntry e timestampMs).bytes.length) :
    ∃ w' room, (journal.record timestampMs e).run execFailing (w, some k) =
        ((.error (.io .writeZero), journal), w', room) ∧
      Live w' journal i (bs ++ (Frame.ofEntry e timestampMs).bytes.take k) := by
  have hk : k < (metaBytes e.tag (e.encode timestampMs).length (crc32 (e.encode timestampMs)) ++
      e.encode timestampMs).length := hk
  obtain ⟨w', hrun, hat, hsame⟩ := writeFrame_torn h.openAt hk
  refine ⟨w', some 0, ?_, h.write hat hsame⟩
  rw [record_eq_commit, JournaledHistory.commit, Prog.run_bind, writeRecord, Prog.run_bindE]
  rw [hrun]
  rfl

/-! ## Runs -/

namespace FaultyRun

variable {r : FaultyRun} {a : Attempt}

/-- A call that does not fail. -/
theorem step_ok (h : Live r.world r.journal i (image hd fs)) (hf : a.fault = none) :
    ∃ world, r.step a = ⟨{ r.journal with inner := r.journal.inner.apply a.call.entry }, world,
        r.acknowledged ++ [a.call.entry]⟩ ∧
      Live world { r.journal with inner := r.journal.inner.apply a.call.entry } i
        (image hd (fs ++ framesOf [a.call])) := by
  obtain ⟨world, hrun, hlive, _⟩ := record_ok h a.call.entry a.call.timestampMs
  refine ⟨world, ?_, ?_⟩
  · rw [step, hf, run_execFailing_none, hrun]
  · rw [framesOf, List.map_singleton, image_append_frame]
    exact hlive

/-- A call that fails. -/
theorem step_torn (h : Live r.world r.journal i bs) (hf : a.fault = some k) :
    ∃ world, r.step a = ⟨r.journal, world, r.acknowledged⟩ ∧ Live world r.journal i
      (bs ++ (Frame.ofEntry a.call.entry a.call.timestampMs).bytes.take k) := by
  obtain ⟨world, room, hrun, hlive⟩ :=
    record_torn h a.call.entry a.call.timestampMs (a.fault_lt k hf)
  exact ⟨world, by rw [step, hf, hrun], hlive⟩

/-- Calls that write nothing change nothing. -/
theorem run_of_silent {attempts : List Attempt} (h : Live r.world r.journal i bs)
    (hsilent : ∀ a ∈ attempts, a.fault = some 0) :
    ∃ world, attempts.foldl step r = ⟨r.journal, world, r.acknowledged⟩ ∧
      Live world r.journal i bs := by
  induction attempts generalizing r with
  | nil => exact ⟨r.world, rfl, h⟩
  | cons a attempts ih =>
    obtain ⟨world, hstep, hlive⟩ := step_torn h (hsilent a (List.mem_cons_self ..))
    rw [List.take_zero, List.append_nil] at hlive
    rw [List.foldl_cons, hstep]
    exact ih (r := ⟨r.journal, world, r.acknowledged⟩) hlive fun b hb =>
      hsilent b (List.mem_cons_of_mem a hb)

/-- The file holds the frames of the acknowledged calls, with at most a part of one behind them. -/
structure Inv (r : FaultyRun) (path : Path) (i : Nat) (hd : Header) (es : List HistoryEntry)
    (fs : List Frame) (tail : List UInt8) : Prop where
  path : r.journal.path = path
  live : Live r.world r.journal i (image hd fs ++ tail)
  stop : Frame.next tail = none
  entries : entries fs = es ++ r.acknowledged
  memory : r.journal.inner = .ofEntries (es ++ r.acknowledged)

variable {path : Path} {es : List HistoryEntry}

/-- By induction on the calls: the file ends with a complete frame before each of them, up to the
first that writes a part of its frame; the calls behind that one write nothing. -/
theorem run_inv {attempts : List Attempt} (h : r.Inv path i hd es fs [])
    (hclean : NothingBehindTorn attempts) :
    ∃ fs' tail, (attempts.foldl step r).Inv path i hd es fs' tail := by
  induction attempts generalizing r fs with
  | nil => exact ⟨fs, [], h⟩
  | cons a attempts ih =>
    have hlive : Live r.world r.journal i (image hd fs) := List.append_nil (image hd fs) ▸ h.live
    rw [List.foldl_cons]
    rw [NothingBehindTorn] at hclean
    rcases hf : a.fault with _ | _ | k
    · rw [hf] at hclean
      obtain ⟨world, hstep, hlive'⟩ := step_ok hlive hf
      rw [← List.append_nil (image hd _)] at hlive'
      have hentries : Driftbrake.entries (framesOf [a.call]) = [a.call.entry] := by
        rw [entries_framesOf, List.map_singleton,
          HistoryEntry.persisted_of_recordable a.recordable]
      rw [hstep]
      refine ih ⟨h.path, hlive', h.stop, ?_, ?_⟩ hclean
      · rw [entries_append, h.entries, hentries, List.append_assoc]
      · rw [h.memory, ← ReconcileHistory.ofEntries_append_singleton, List.append_assoc]
    · rw [hf] at hclean
      obtain ⟨world, hstep, hlive'⟩ := step_torn hlive hf
      rw [hstep]
      exact ih ⟨h.path, hlive', h.stop, h.entries, h.memory⟩ hclean
    · rw [hf] at hclean
      obtain ⟨world, hstep, hlive'⟩ := step_torn hlive hf
      have hstop := frameCode.next_take_eq_none (a.fault_lt (k + 1) hf)
      rw [hstep]
      obtain ⟨world', hrest, hlive''⟩ :=
        run_of_silent (r := ⟨r.journal, world, r.acknowledged⟩) hlive' hclean
      rw [hrest]
      exact ⟨fs, _, h.path, hlive'', hstop, h.entries, h.memory⟩

theorem Inv.recovers (h : r.Inv path i hd es fs tail) (hne : path ≠ path.lockPath) :
    r.Recovers es := by
  intro max epochMs
  have hne : r.journal.path ≠ r.journal.path.lockPath := by rwa [h.path]
  obtain ⟨i', fd, world, hrun, hlive⟩ :=
    reopen_ok max epochMs h.live.locked hne h.live.lookup h.stop
  refine ⟨_, world, hrun, ?_, ?_⟩
  · rw [h.entries]
    exact ReconcileHistory.isOf_ofEntries _
  · rw [h.entries, h.memory]

end FaultyRun

/-- The run of some calls on a journal that has just been opened. -/
def faultyRun (journal : JournaledHistory) (w : FileSystem Path) (attempts : List Attempt) :
    FaultyRun :=
  attempts.foldl FaultyRun.step ⟨journal, w, []⟩

theorem NothingBehindTorn.of_append {as bs : List Attempt} (h : NothingBehindTorn (as ++ bs)) :
    NothingBehindTorn as := by
  induction as with
  | nil => trivial
  | cons a as ih =>
    rw [List.cons_append, NothingBehindTorn] at h
    rw [NothingBehindTorn]
    rcases hf : a.fault with _ | _ | k
    · exact ih (by rwa [hf] at h)
    · exact ih (by rwa [hf] at h)
    · rw [hf] at h
      exact fun b hb => h b (List.mem_append_left bs hb)

/-- **Acknowledged entries survive failed writes** in every state of every run in which no call
writes behind a frame that was written in part, on a path that is not its own lock path. -/
theorem acknowledged_survive {path : Path} {es : List HistoryEntry} {w' : FileSystem Path}
    {max : Nat} {epochMs : UInt64} {attempts : List Attempt}
    (hpath : path.extension ≠ some lockExtension) (H : AfterSessions path w es)
    (hopen : (openOrCreate path max epochMs).run exec w = (.ok journal, w'))
    (hclean : NothingBehindTorn attempts) :
    ∀ made, made <+: attempts →
      (faultyRun journal w' made).Recovers (es.map (·.persisted)) := by
  rintro made ⟨later, rfl⟩
  have hne := ne_lockPath_iff.mpr hpath
  obtain ⟨i, w₁, hd, fs, hrun, hlive, _, hentries, _⟩ := (H.stored hne).open_ok max epochMs
  cases hopen.symm.trans hrun
  have hinv : FaultyRun.Inv ⟨⟨.ofEntries (es.map (·.persisted)), w.fds, path, max⟩, w', []⟩ path i
      hd (es.map (·.persisted)) fs [] := by
    refine ⟨rfl, ?_, frameCode.next_nil, ?_, ?_⟩
    · rwa [List.append_nil]
    · rwa [List.append_nil]
    · rw [List.append_nil]
  obtain ⟨fs', tail, hinv'⟩ := FaultyRun.run_inv hinv hclean.of_append
  exact hinv'.recovers hne

theorem length_bytes_trade (predicted realized : Int) (timestampMs : UInt64) :
    (Frame.ofEntry (.trade predicted realized) timestampMs).bytes.length = 49 := by
  simp [Frame.bytes, Frame.ofEntry, HistoryEntry.trade, HistoryEntry.encode]

/-- A call that records a pair, `fault` bytes of which reach the file if it fails. -/
def tradeAttempt (predicted realized : Int) (fault : Option (Fin 49)) : Attempt where
  call := ⟨0, .trade predicted realized⟩
  recordable := trivial
  fault := fault.map (·.val)
  fault_lt k hk := by
    obtain ⟨n, _, rfl⟩ := Option.mem_map.mp hk
    rw [length_bytes_trade]
    exact n.isLt

/-- A complete frame, then a part of one, then a call that writes nothing. -/
theorem acknowledged_survive_torn_end : ∃ journal w',
    (openOrCreate driftJournal 100 0).run exec .empty = (.ok journal, w') ∧
    ∀ made, made <+: [tradeAttempt 100 90 none, tradeAttempt 200 190 (some 1),
      tradeAttempt 300 290 (some 0)] → (faultyRun journal w' made).Recovers [] := by
  have hstart : AfterSessions driftJournal .empty [] := .start rfl rfl
  have hopen : (openOrCreate driftJournal 100 0).run exec .empty = (.ok _, _) := rfl
  refine ⟨_, _, hopen, acknowledged_survive driftJournal_ne_lock hstart hopen fun b hb => ?_⟩
  rw [List.mem_singleton.mp hb]
  rfl

/-- One byte of a frame, then a complete one. -/
def tornThenOk : List Attempt :=
  [tradeAttempt 100 90 (some 1), tradeAttempt 200 190 none]

/-- The second call returns `Ok`, and the journal that is opened next is empty. -/
theorem torn_call_loses_the_next : ∃ journal w',
    (openOrCreate driftJournal 100 0).run exec .empty = (.ok journal, w') ∧
    (faultyRun journal w' tornThenOk).acknowledged = [.trade 200 190] ∧
    ¬(faultyRun journal w' tornThenOk).Recovers [] := by
  refine ⟨_, _, rfl, by decide +kernel, fun H => ?_⟩
  obtain ⟨journal, w, hrun, hof, _⟩ := H 100 0
  have hlost := congrArg (fun r => r.1.toOption.map (·.inner.timeline)) hrun
  have hnone : some [] = some journal.inner.timeline := by
    refine Eq.trans ?_ hlost
    decide +kernel
  have hacked := hof.timeline
  rw [← Option.some.inj hnone] at hacked
  revert hacked
  decide +kernel

end Driftbrake
