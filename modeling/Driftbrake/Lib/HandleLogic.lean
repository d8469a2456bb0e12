import Driftbrake.Lib.FileSystem

/-!
# Rules for programs on one open file

A program that works on one handle is specified by what it makes of the position and the bytes:
`Acts` for a single operation, `Effect` for a program. The frame is part of both, so nothing has to
be said about the rest of the file system. An `Effect` also bounds what can be seen of the file
between two operations: its bytes satisfy `S` all along.
-/

namespace Driftbrake

namespace FileSystem

variable {P : Type} [DecidableEq P] {α β ε : Type} {S : List UInt8 → Prop}
  {fd i n pos pos' pos'' : Nat} {bs bs' bs'' : List UInt8}

/-- Executed where `fd` is open on `i` at `pos` with the bytes `bs`, the operation returns `r`,
moves the handle to `pos'`, changes the bytes to `bs'` and leaves everything else alone. -/
def Acts (fd i pos : Nat) (bs : List UInt8) (o : FsOp P α) (r : α) (pos' : Nat)
    (bs' : List UInt8) : Prop :=
  ∀ w : FileSystem P, w.OpenAt fd i pos bs →
    ∃ w', exec o w = (r, w') ∧ w'.OpenAt fd i pos' bs' ∧ SameBut fd i w w'

/-- The same of a program, with `S` true of the bytes before and after each of its operations. -/
def Effect (S : List UInt8 → Prop) (fd i pos : Nat) (bs : List UInt8)
    (p : ExceptT ε (Prog (FsOp P)) α) (r : Except ε α) (pos' : Nat) (bs' : List UInt8) : Prop :=
  ∀ w : FileSystem P, w.OpenAt fd i pos bs →
    (∃ w', p.run.run exec w = (r, w') ∧ w'.OpenAt fd i pos' bs' ∧ SameBut fd i w w') ∧
    ∀ v, p.run.Visits exec w v → SameBut fd i w v ∧ S (v.content i)

/-! ## Operations -/

theorem acts_len : Acts (P := P) fd i pos bs (.len fd) (.ok bs.length) pos bs := fun w h =>
  ⟨w, by simp [exec, execOp, withHandle, h.handle, h.content], h, .refl⟩

theorem acts_streamPosition :
    Acts (P := P) fd i pos bs (.streamPosition fd) (.ok pos) pos bs := fun w h =>
  ⟨w, by simp [exec, execOp, withHandle, h.handle], h, .refl⟩

theorem acts_flush : Acts (P := P) fd i pos bs (.flush fd) (.ok ()) pos bs := fun w h =>
  ⟨w, by simp [exec, execOp, withHandle, h.handle], h, .refl⟩

theorem acts_seekStart : Acts (P := P) fd i pos bs (.seekStart fd n) (.ok ()) n bs := fun w h =>
  ⟨w.move fd n, by simp [exec, execOp, withHandle, h.handle], h.move n, sameBut_move⟩

theorem acts_seekEnd :
    Acts (P := P) fd i pos bs (.seekEnd fd) (.ok ()) bs.length bs := fun w h =>
  ⟨w.move fd bs.length, by simp [exec, execOp, withHandle, h.handle, h.content], h.move _,
    sameBut_move⟩

/-- Cutting a file back to its first bytes. -/
theorem acts_setLen {rest : List UInt8} :
    Acts (P := P) fd i pos (bs ++ rest) (.setLen fd bs.length) (.ok ()) pos bs := fun w h =>
  ⟨w.setContent i bs, by simp [exec, execOp, withHandle, h.handle, h.content, resize_append],
    h.setContent bs, sameBut_setContent⟩

theorem acts_writeAll_at (new : List UInt8) :
    Acts (P := P) fd i pos bs (.writeAll fd new) (.ok ()) (pos + new.length)
      (overwrite bs pos new) := fun w h =>
  ⟨(w.setContent i (overwrite bs pos new)).move fd (pos + new.length),
    by simp [exec, execOp, withHandle, h.handle, h.content], (h.setContent _).move _,
    sameBut_setContent.trans sameBut_move⟩

/-- Writing at the end of a file. -/
theorem acts_writeAll (new : List UInt8) :
    Acts (P := P) fd i bs.length bs (.writeAll fd new) (.ok ()) (bs ++ new).length
      (bs ++ new) := by
  have h : Acts (P := P) fd i bs.length bs _ _ _ _ := acts_writeAll_at new
  rwa [overwrite_end, ← List.length_append] at h

theorem acts_writeAll_start (new : List UInt8) :
    Acts (P := P) fd i 0 [] (.writeAll fd new) (.ok ()) new.length new := by
  have h : Acts (P := P) fd i [].length [] _ _ _ _ := acts_writeAll new
  exact h

/-- A read of bytes that are all there. -/
theorem acts_readExact {pre new rest : List UInt8} (hn : new.length = n) :
    Acts (P := P) fd i pre.length (pre ++ (new ++ rest)) (.readExact fd n) (.ok new)
      (pre ++ new).length (pre ++ (new ++ rest)) := fun w h =>
  ⟨w.move fd (pre ++ new).length, by simp [exec, execOp, withHandle, h.handle, h.content, ← hn],
    h.move _, sameBut_move⟩

/-- A read past the end of the file fails and leaves the position at the end. -/
theorem acts_readExact_eof {pre rest : List UInt8} (hn : rest.length < n) :
    Acts (P := P) fd i pre.length (pre ++ rest) (.readExact fd n) (.error .unexpectedEof)
      (pre ++ rest).length (pre ++ rest) := fun w h =>
  ⟨w.move fd (pre ++ rest).length, by simp [exec, execOp, withHandle, h.handle, h.content, hn],
    h.move _, sameBut_move⟩

theorem acts_readExact_start {new rest : List UInt8} (hn : new.length = n) :
    Acts (P := P) fd i 0 (new ++ rest) (.readExact fd n) (.ok new) new.length (new ++ rest) := by
  have h : Acts (P := P) fd i [].length ([] ++ (new ++ rest)) _ _ _ _ := acts_readExact hn
  exact h

theorem acts_readExact_eof_start (hn : bs.length < n) :
    Acts (P := P) fd i 0 bs (.readExact fd n) (.error .unexpectedEof) bs.length bs := by
  have h : Acts (P := P) fd i [].length ([] ++ bs) _ _ _ _ := acts_readExact_eof hn
  exact h

/-! ## Programs -/

namespace Effect

theorem pure (a : α) (hS : S bs) :
    Effect (P := P) (ε := ε) S fd i pos bs (Pure.pure a) (.ok a) pos bs := by
  refine fun w h => ⟨⟨w, rfl, h, .refl⟩, fun v hv => ?_⟩
  cases (hv : v = w)
  exact ⟨.refl, h.content ▸ hS⟩

theorem throw (e : ε) (hS : S bs) :
    Effect (P := P) (α := α) S fd i pos bs (throw e) (.error e) pos bs := by
  refine fun w h => ⟨⟨w, rfl, h, .refl⟩, fun v hv => ?_⟩
  cases (hv : v = w)
  exact ⟨.refl, h.content ▸ hS⟩

theorem bind {p : ExceptT ε (Prog (FsOp P)) α} {f : α → ExceptT ε (Prog (FsOp P)) β} {a : α}
    {r : Except ε β} (hp : Effect S fd i pos bs p (.ok a) pos' bs')
    (hf : Effect S fd i pos' bs' (f a) r pos'' bs'') :
    Effect S fd i pos bs (p >>= f) r pos'' bs'' := by
  intro w h
  obtain ⟨⟨w', hrun, h', hsame⟩, hvis⟩ := hp w h
  obtain ⟨⟨w'', hrun', h'', hsame'⟩, hvis'⟩ := hf w' h'
  refine ⟨⟨w'', ?_, h'', hsame.trans hsame'⟩, fun v hv => ?_⟩
  · rw [Prog.run_bindE, hrun]
    exact hrun'
  · rw [Prog.visits_bindE, hrun] at hv
    rcases hv with hv | hv
    · exact hvis v hv
    · exact ⟨hsame.trans (hvis' v hv).1, (hvis' v hv).2⟩

theorem bind_error {p : ExceptT ε (Prog (FsOp P)) α} {f : α → ExceptT ε (Prog (FsOp P)) β}
    {e : ε} (hp : Effect S fd i pos bs p (.error e) pos' bs') :
    Effect S fd i pos bs (p >>= f) (.error e) pos' bs' := by
  intro w h
  obtain ⟨⟨w', hrun, h', hsame⟩, hvis⟩ := hp w h
  refine ⟨⟨w', by rw [Prog.run_bindE, hrun], h', hsame⟩, fun v hv => ?_⟩
  rw [Prog.visits_bindE, hrun] at hv
  rcases hv with hv | hv
  · exact hvis v hv
  · subst hv
    exact hvis v (.of_run hrun)

theorem attempt {o : FsOp P (Except ε α)} {wrap : ε → β} {r : Except ε α}
    (ho : Acts fd i pos bs o r pos' bs') (hS : S bs) (hS' : S bs') :
    Effect S fd i pos bs (Prog.attempt wrap o) (r.mapError wrap) pos' bs' := by
  intro w h
  obtain ⟨w', hexec, h', hsame⟩ := ho w h
  refine ⟨⟨w', by rw [Prog.run_attempt, hexec], h', hsame⟩, fun v hv => ?_⟩
  rw [Prog.visits_attempt, hexec] at hv
  rcases hv with rfl | rfl
  · exact ⟨.refl, h.content ▸ hS⟩
  · exact ⟨hsame, h'.content ▸ hS'⟩

theorem attempt_ok {o : FsOp P (Except ε α)} {wrap : ε → β} {a : α}
    (ho : Acts fd i pos bs o (.ok a) pos' bs') (hS : S bs) (hS' : S bs') :
    Effect S fd i pos bs (Prog.attempt wrap o) (.ok a) pos' bs' :=
  attempt ho hS hS'

theorem attempt_error {o : FsOp P (Except ε α)} {wrap : ε → β} {e : ε}
    (ho : Acts fd i pos bs o (.error e) pos' bs') (hS : S bs) (hS' : S bs') :
    Effect S fd i pos bs (Prog.attempt wrap o) (.error (wrap e)) pos' bs' :=
  attempt ho hS hS'

theorem lift {o : FsOp P α} {r : α} (ho : Acts fd i pos bs o r pos' bs') (hS : S bs)
    (hS' : S bs') : Effect S fd i pos bs
      (liftM (Prog.perform o) : ExceptT ε (Prog (FsOp P)) α) (.ok r) pos' bs' := by
  intro w h
  obtain ⟨w', hexec, h', hsame⟩ := ho w h
  refine ⟨⟨w', by rw [Prog.run_liftE, Prog.run_perform, hexec], h', hsame⟩, fun v hv => ?_⟩
  rw [Prog.visits_liftE, Prog.visits_perform, hexec] at hv
  rcases hv with rfl | rfl
  · exact ⟨.refl, h.content ▸ hS⟩
  · exact ⟨hsame, h'.content ▸ hS'⟩

end Effect

end FileSystem

end Driftbrake
