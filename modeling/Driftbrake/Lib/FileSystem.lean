import Driftbrake.Lib.Prog
import Mathlib.Logic.Function.Basic

/-!
# A file system with directory entries, inodes and open file descriptions

The operations are those of `std::fs` that act on one file or one directory entry. A handle
refers to an inode and not to a path, so it keeps its file when the directory entry is renamed
over or removed. Paths are an arbitrary type; hard links are not excluded.

Specifications use two views. `w.OpenAt fd i pos bs` says that `fd` is open on the inode `i`, which
holds `bs`, at position `pos`; `SameBut fd i w w'` says that nothing but the handle `fd` and the
inode `i` differs between `w` and `w'`. `Lib/HandleLogic.lean` has the rules of the operations.
-/

namespace Driftbrake

/-- The kinds of `std::io::Error` that the operations below report. -/
inductive IoError
  | alreadyExists
  | notFound
  | unexpectedEof
  | writeZero
  | badDescriptor
deriving DecidableEq, Repr

/-- An open file description. -/
structure OpenFile where
  inode : Nat
  pos : Nat

structure FileSystem (P : Type) where
  dir : P → Option Nat
  content : Nat → List UInt8
  handles : Nat → Option OpenFile
  /-- The number of inodes and of descriptors given out so far. -/
  inodes : Nat
  fds : Nat
  dir_lt : ∀ {p i}, dir p = some i → i < inodes
  inode_lt : ∀ {fd f}, handles fd = some f → f.inode < inodes
  handles_lt : ∀ {fd f}, handles fd = some f → fd < fds

inductive FsOp (P : Type) : Type → Type
  | createNew (p : P) : FsOp P (Except IoError Unit)
  | openFile (p : P) (create truncate : Bool) : FsOp P (Except IoError Nat)
  | len (fd : Nat) : FsOp P (Except IoError Nat)
  | seekStart (fd n : Nat) : FsOp P (Except IoError Unit)
  | seekEnd (fd : Nat) : FsOp P (Except IoError Unit)
  | streamPosition (fd : Nat) : FsOp P (Except IoError Nat)
  | readExact (fd n : Nat) : FsOp P (Except IoError (List UInt8))
  | writeAll (fd : Nat) (bs : List UInt8) : FsOp P (Except IoError Unit)
  | flush (fd : Nat) : FsOp P (Except IoError Unit)
  | setLen (fd n : Nat) : FsOp P (Except IoError Unit)
  | close (fd : Nat) : FsOp P Unit
  | rename (p q : P) : FsOp P (Except IoError Unit)
  | removeFile (p : P) : FsOp P (Except IoError Unit)

/-- `bs` after `new` has been written at `pos`; a gap is filled with zeros. -/
def overwrite (bs : List UInt8) (pos : Nat) (new : List UInt8) : List UInt8 :=
  bs.take pos ++ List.replicate (pos - bs.length) 0 ++ new ++ bs.drop (pos + new.length)

/-- `bs` cut or zero-extended to `n` bytes. -/
def resize (bs : List UInt8) (n : Nat) : List UInt8 :=
  bs.take n ++ List.replicate (n - bs.length) 0

@[simp] theorem overwrite_end (bs new : List UInt8) : overwrite bs bs.length new = bs ++ new := by
  simp [overwrite]

/-- Bytes in the middle replaced by as many. -/
theorem overwrite_middle (before old after : List UInt8) {new : List UInt8}
    (h : new.length = old.length) :
    overwrite (before ++ old ++ after) before.length new = before ++ new ++ after := by
  simp [overwrite, h]

theorem exists_middle {bs : List UInt8} {pos n : Nat} (h : pos + n ≤ bs.length) :
    ∃ before old after, bs = before ++ old ++ after ∧ before.length = pos ∧ old.length = n := by
  refine ⟨bs.take pos, (bs.drop pos).take n, bs.drop (pos + n), ?_, ?_, ?_⟩
  · rw [List.append_assoc, ← List.drop_drop, List.take_append_drop, List.take_append_drop]
  · rw [List.length_take]
    omega
  · rw [List.length_take, List.length_drop]
    omega

theorem length_overwrite {bs new : List UInt8} {pos : Nat} (h : pos + new.length ≤ bs.length) :
    (overwrite bs pos new).length = bs.length := by
  obtain ⟨before, old, after, rfl, rfl, hold⟩ := exists_middle h
  rw [overwrite_middle _ _ _ hold.symm]
  simp [hold]

/-- A change inside one of three pieces leaves the other two alone. -/
theorem overwrite_append (before mid after : List UInt8) {new : List UInt8} {pos : Nat}
    (h : pos + new.length ≤ mid.length) :
    overwrite (before ++ mid ++ after) (before.length + pos) new =
      before ++ overwrite mid pos new ++ after := by
  obtain ⟨front, old, back, rfl, rfl, hold⟩ := exists_middle h
  have hsplit : before ++ (front ++ old ++ back) ++ after =
      (before ++ front) ++ old ++ (back ++ after) := by simp
  rw [hsplit, ← List.length_append, overwrite_middle _ _ _ hold.symm,
    overwrite_middle _ _ _ hold.symm]
  simp

theorem overwrite_nil {bs : List UInt8} {pos : Nat} (h : pos ≤ bs.length) :
    overwrite bs pos [] = bs := by
  simp [overwrite, Nat.sub_eq_zero_of_le h]

/-- Two writes, the second where the first has ended, are one. -/
theorem overwrite_overwrite (bs new more : List UInt8) (pos : Nat) :
    overwrite (overwrite bs pos new) (pos + new.length) more = overwrite bs pos (new ++ more) := by
  have hfront : (bs.take pos ++ List.replicate (pos - bs.length) 0 ++ new).length =
      pos + new.length := by
    simp only [List.length_append, List.length_take, List.length_replicate]
    omega
  have htake : (overwrite bs pos new).take (pos + new.length) =
      bs.take pos ++ List.replicate (pos - bs.length) 0 ++ new := by
    rw [overwrite, ← hfront, List.take_left]
  have hdrop : (overwrite bs pos new).drop (pos + new.length + more.length) =
      bs.drop (pos + (new ++ more).length) := by
    rw [overwrite, ← List.drop_drop, ← hfront, List.drop_left, hfront, List.drop_drop,
      List.length_append, Nat.add_assoc]
  have hpad : pos + new.length - (overwrite bs pos new).length = 0 := by
    have hlen := congrArg List.length htake
    rw [hfront, List.length_take] at hlen
    omega
  rw [overwrite, htake, hdrop, hpad, overwrite]
  simp only [List.replicate_zero, List.append_nil, List.append_assoc]

theorem resize_append {bs tail : List UInt8} : resize (bs ++ tail) bs.length = bs := by
  simp [resize]

namespace FileSystem

variable {P : Type} [DecidableEq P]

/-- The bytes of the file at `p`, if there is one. -/
def lookup (w : FileSystem P) (p : P) : Option (List UInt8) := (w.dir p).map w.content

def setContent (w : FileSystem P) (i : Nat) (bs : List UInt8) : FileSystem P :=
  { w with content := Function.update w.content i bs }

/-- The handle `fd` moved to position `pos`. -/
def move (w : FileSystem P) (fd pos : Nat) : FileSystem P :=
  { w with
    handles := fun d => if d = fd then (w.handles d).map fun f => ⟨f.inode, pos⟩ else w.handles d
    inode_lt := by
      intro d f h
      split at h
      · obtain ⟨g, hg, rfl⟩ := Option.map_eq_some_iff.mp h
        have := w.inode_lt hg
        exact this
      · exact w.inode_lt h
    handles_lt := by
      intro d f h
      split at h
      · obtain ⟨g, hg, rfl⟩ := Option.map_eq_some_iff.mp h
        exact w.handles_lt hg
      · exact w.handles_lt h }

def closeFd (w : FileSystem P) (fd : Nat) : FileSystem P :=
  { w with
    handles := fun d => if d = fd then none else w.handles d
    inode_lt := by
      intro d f h
      split at h
      · cases h
      · exact w.inode_lt h
    handles_lt := by
      intro d f h
      split at h
      · cases h
      · exact w.handles_lt h }

/-- A new empty file at `p`. -/
def create (w : FileSystem P) (p : P) : FileSystem P :=
  { w with
    dir := fun q => if q = p then some w.inodes else w.dir q
    content := Function.update w.content w.inodes []
    inodes := w.inodes + 1
    dir_lt := by
      intro q i h
      split at h
      · cases h; omega
      · have := w.dir_lt h; omega
    inode_lt := fun h => Nat.lt_succ_of_lt (w.inode_lt h) }

/-- A new handle at the start of the inode `i`. -/
def openInode (w : FileSystem P) (i : Nat) (hi : i < w.inodes) : FileSystem P :=
  { w with
    handles := fun d => if d = w.fds then some ⟨i, 0⟩ else w.handles d
    fds := w.fds + 1
    inode_lt := by
      intro d f h
      split at h
      · cases h; exact hi
      · exact w.inode_lt h
    handles_lt := by
      intro d f h
      split at h
      · omega
      · have := w.handles_lt h; omega }

/-- The entry `p` moved to `q`, over whatever was there. -/
def renameEntry (w : FileSystem P) (p q : P) : FileSystem P :=
  { w with
    dir := fun r => if r = q then w.dir p else if r = p then none else w.dir r
    dir_lt := by
      intro r i h
      split at h
      · exact w.dir_lt h
      · split at h
        · cases h
        · exact w.dir_lt h }

def unlink (w : FileSystem P) (p : P) : FileSystem P :=
  { w with
    dir := fun r => if r = p then none else w.dir r
    dir_lt := by
      intro r i h
      split at h
      · cases h
      · exact w.dir_lt h }

/-- `f` with the open file of `fd`; a descriptor that is not open is an error. -/
def withHandle (w : FileSystem P) (fd : Nat)
    (f : OpenFile → Except IoError α × FileSystem P) : Except IoError α × FileSystem P :=
  match w.handles fd with
  | some o => f o
  | none => (.error .badDescriptor, w)

def execOp : {β : Type} → FsOp P β → FileSystem P → β × FileSystem P
  | _, .createNew p, w =>
    match w.dir p with
    | some _ => (.error .alreadyExists, w)
    | none => (.ok (), w.create p)
  | _, .openFile p create truncate, w =>
    match h : w.dir p with
    | some i =>
      let w' := if truncate then w.setContent i [] else w
      (.ok w.fds, w'.openInode i (by
        have := w.dir_lt h
        simp only [w']
        split <;> exact this))
    | none =>
      if create then
        (.ok w.fds, (w.create p).openInode w.inodes (Nat.lt_succ_self _))
      else (.error .notFound, w)
  | _, .len fd, w => w.withHandle fd fun f => (.ok (w.content f.inode).length, w)
  | _, .seekStart fd n, w => w.withHandle fd fun _ => (.ok (), w.move fd n)
  | _, .seekEnd fd, w => w.withHandle fd fun f => (.ok (), w.move fd (w.content f.inode).length)
  | _, .streamPosition fd, w => w.withHandle fd fun f => (.ok f.pos, w)
  | _, .readExact fd n, w => w.withHandle fd fun f =>
    let bs := (w.content f.inode).drop f.pos
    if n ≤ bs.length then (.ok (bs.take n), w.move fd (f.pos + n))
    else (.error .unexpectedEof, w.move fd (f.pos + bs.length))
  | _, .writeAll fd bs, w => w.withHandle fd fun f =>
    (.ok (), (w.setContent f.inode (overwrite (w.content f.inode) f.pos bs)).move fd
      (f.pos + bs.length))
  | _, .flush fd, w => w.withHandle fd fun _ => (.ok (), w)
  | _, .setLen fd n, w => w.withHandle fd fun f =>
    (.ok (), w.setContent f.inode (resize (w.content f.inode) n))
  | _, .close fd, w => ((), w.closeFd fd)
  | _, .rename p q, w =>
    match w.dir p with
    | some _ => (.ok (), w.renameEntry p q)
    | none => (.error .notFound, w)
  | _, .removeFile p, w =>
    match w.dir p with
    | some _ => (.ok (), w.unlink p)
    | none => (.error .notFound, w)

/-- The execution of the operations, with no failure but those the state itself causes. -/
def exec : Handler (FsOp P) (FileSystem P) := ⟨execOp⟩

/-- The execution on a disk that takes `n` more bytes, for a state `(w, some n)`: a write of more
leaves as many as it takes and fails. In a state `(w, none)` nothing fails. -/
def execFailing : Handler (FsOp P) (FileSystem P × Option Nat) where
  step
    | .writeAll fd bs, (w, some n) =>
      if bs.length ≤ n then
        let r := exec (.writeAll fd bs) w
        (r.1, r.2, some (n - bs.length))
      else
        let r := exec (.writeAll fd (bs.take n)) w
        (.error .writeZero, r.2, some 0)
    | o, (w, room) =>
      let r := exec o w
      (r.1, r.2, room)

/-- Nothing but one file, and nothing open. -/
def ofFile (p : P) (bs : List UInt8) : FileSystem P where
  dir q := if q = p then some 0 else none
  content _ := bs
  handles _ := none
  inodes := 1
  fds := 0
  dir_lt h := by
    split at h
    · cases h
      exact Nat.one_pos
    · cases h
  inode_lt h := nomatch h
  handles_lt h := nomatch h

/-- No file at all. -/
def empty : FileSystem P where
  dir _ := none
  content _ := []
  handles _ := none
  inodes := 0
  fds := 0
  dir_lt h := nomatch h
  inode_lt h := nomatch h
  handles_lt h := nomatch h

theorem execFailing_none {α : Type} (o : FsOp P α) (w : FileSystem P) :
    execFailing o (w, none) = ((exec o w).1, (exec o w).2, none) := by
  cases o <;> rfl

theorem run_execFailing_none {α : Type} (p : Prog (FsOp P) α) (w : FileSystem P) :
    p.run execFailing (w, none) = ((p.run exec w).1, (p.run exec w).2, none) :=
  Prog.run_simulates (g := fun w => (w, none)) execFailing_none p w

/-! ## What each update leaves alone -/

section
omit [DecidableEq P]
variable (w : FileSystem P) (i fd pos : Nat) (bs : List UInt8)

@[simp] theorem dir_closeFd : (w.closeFd fd).dir = w.dir := rfl
end

section
variable (w : FileSystem P) (p q : P)

theorem dir_create : (w.create p).dir q = if q = p then some w.inodes else w.dir q := rfl
theorem content_create : (w.create p).content = Function.update w.content w.inodes [] := rfl

theorem dir_renameEntry {r : P} :
    (w.renameEntry p q).dir r = if r = q then w.dir p else if r = p then none else w.dir r := rfl

@[simp] theorem content_unlink : (w.unlink p).content = w.content := rfl
@[simp] theorem handles_unlink : (w.unlink p).handles = w.handles := rfl
theorem dir_unlink : (w.unlink p).dir q = if q = p then none else w.dir q := rfl

end

variable {w w' w'' : FileSystem P} {fd i pos n : Nat} {bs : List UInt8} {p : P}

section
omit [DecidableEq P]

/-- A newly created inode is not in the directory. -/
theorem dir_ne_inodes : w.dir p ≠ some w.inodes := fun h => Nat.lt_irrefl _ (w.dir_lt h)

theorem ne_of_dir_none {q : P} (hp : w.dir p = some i) (hq : w.dir q = none) : p ≠ q := by
  rintro rfl
  cases hp.symm.trans hq

theorem lookup_eq_none_iff : w.lookup p = none ↔ w.dir p = none := Option.map_eq_none_iff

/-! ## The view of a handle -/

/-- `fd` is open on the inode `i`, which holds `bs`, at position `pos`. -/
structure OpenAt (w : FileSystem P) (fd i pos : Nat) (bs : List UInt8) : Prop where
  handle : w.handles fd = some ⟨i, pos⟩
  content : w.content i = bs

/-- `w` and `w'` differ in nothing but the handle `fd` and the bytes of the inode `i`. -/
structure SameBut (fd i : Nat) (w w' : FileSystem P) : Prop where
  dir : w'.dir = w.dir
  content : ∀ {j}, j ≠ i → w'.content j = w.content j
  handles : ∀ {d}, d ≠ fd → w'.handles d = w.handles d
  inodes : w'.inodes = w.inodes

theorem SameBut.refl : SameBut fd i w w := ⟨rfl, fun _ => rfl, fun _ => rfl, rfl⟩

theorem SameBut.trans (h1 : SameBut fd i w w') (h2 : SameBut fd i w' w'') :
    SameBut fd i w w'' :=
  ⟨h2.dir.trans h1.dir, fun h => (h2.content h).trans (h1.content h),
    fun h => (h2.handles h).trans (h1.handles h), h2.inodes.trans h1.inodes⟩

/-- What is not a link to the file is not changed with it. -/
theorem SameBut.lookup (H : SameBut fd i w w') (h : w.dir p ≠ some i) :
    w'.lookup p = w.lookup p := by
  rw [FileSystem.lookup, FileSystem.lookup, H.dir]
  refine Option.map_congr fun j hj => H.content ?_
  rintro rfl
  exact h hj

theorem sameBut_setContent : SameBut fd i w (w.setContent i bs) :=
  ⟨rfl, fun h => Function.update_of_ne h _ _, fun _ => rfl, rfl⟩

theorem sameBut_move : SameBut fd i w (w.move fd pos) :=
  ⟨rfl, fun _ => rfl, fun h => if_neg h, rfl⟩

theorem OpenAt.move (h : w.OpenAt fd i pos bs) (pos' : Nat) :
    (w.move fd pos').OpenAt fd i pos' bs :=
  ⟨by simp [FileSystem.move, h.handle], h.content⟩

theorem OpenAt.setContent (h : w.OpenAt fd i pos bs) (bs' : List UInt8) :
    (w.setContent i bs').OpenAt fd i pos bs' :=
  ⟨h.handle, Function.update_self ..⟩

theorem OpenAt.lookup (h : w.OpenAt fd i pos bs) (hp : w.dir p = some i) :
    w.lookup p = some bs := by
  simp [FileSystem.lookup, hp, h.content]

/-- A handle survives the closing of another. -/
theorem OpenAt.closeFd {d : Nat} (h : w.OpenAt fd i pos bs) (hd : fd ≠ d) :
    (w.closeFd d).OpenAt fd i pos bs :=
  ⟨(if_neg hd).trans h.handle, h.content⟩

/-- A handle survives whatever leaves it and its inode alone. -/
theorem OpenAt.frame {d j : Nat} (h : w.OpenAt fd i pos bs) (H : SameBut d j w w')
    (hd : fd ≠ d) (hj : i ≠ j) : w'.OpenAt fd i pos bs :=
  ⟨(H.handles hd).trans h.handle, (H.content hj).trans h.content⟩

end

/-! ## Operations on the directory -/

/-- `w'` is `w` after the file at `p` has been opened as `fd`: a handle at the start of the inode
`i`, which holds `bs`. An entry that was no link to the file before is none after. -/
structure Opened (w w' : FileSystem P) (p : P) (fd i : Nat) (bs : List UInt8) : Prop where
  openAt : w'.OpenAt fd i 0 bs
  entry : w'.dir p = some i
  dir : ∀ {q}, q ≠ p → w'.dir q = w.dir q
  unlinked : ∀ {q}, q ≠ p → (∀ j, w.dir p = some j → w.dir q ≠ some j) → w'.dir q ≠ some i
  content : ∀ {j}, j ≠ i → w'.content j = w.content j
  handles : ∀ {d}, d ≠ fd → w'.handles d = w.handles d
  unused : w.handles fd = none

omit [DecidableEq P] in
theorem handles_fds (w : FileSystem P) : w.handles w.fds = none := by
  by_contra h
  obtain ⟨f, hf⟩ := Option.ne_none_iff_exists'.mp h
  exact Nat.lt_irrefl _ (w.handles_lt hf)

omit [DecidableEq P] in
theorem opened_openInode (hp : w'.dir p = some i) (hi : i < w'.inodes)
    (hdir : ∀ {q}, q ≠ p → w'.dir q = w.dir q)
    (hunlinked : ∀ {q}, q ≠ p → (∀ j, w.dir p = some j → w.dir q ≠ some j) → w'.dir q ≠ some i)
    (hcontent : ∀ {j}, j ≠ i → w'.content j = w.content j) (hhandles : w'.handles = w.handles)
    (hfds : w'.fds = w.fds) : Opened w (w'.openInode i hi) p w.fds i (w'.content i) where
  openAt := ⟨by simp [openInode, hfds], rfl⟩
  entry := hp
  dir := hdir
  unlinked := hunlinked
  content := hcontent
  handles h := by simp [openInode, hfds, h, hhandles]
  unused := w.handles_fds

/-- Opening a file that exists or may be created. -/
theorem exec_openFile (w : FileSystem P) (p : P) (create truncate : Bool)
    (h : create = true ∨ (w.dir p).isSome) :
    ∃ i w', exec (.openFile p create truncate) w = (.ok w.fds, w') ∧
      Opened w w' p w.fds i (if truncate then [] else (w.lookup p).getD []) := by
  simp only [exec, execOp]
  split
  · rename_i i hp
    have hlookup : (w.lookup p).getD [] = w.content i := by simp [lookup, hp]
    refine ⟨i, _, rfl, ?_⟩
    cases truncate with
    | false =>
      rw [hlookup]
      exact opened_openInode hp _ (fun _ => rfl) (fun _ h => h i hp) (fun _ => rfl) rfl rfl
    | true =>
      have hnil : (w.setContent i []).content i = [] := Function.update_self ..
      have hdir : (w.setContent i []).dir p = some i := hp
      have hi : i < (w.setContent i []).inodes := w.dir_lt hp
      have hopened : Opened w ((w.setContent i []).openInode i hi) p w.fds i
          ((w.setContent i []).content i) :=
        opened_openInode hdir hi (fun _ => rfl) (fun _ h => h i hp)
          (fun h => Function.update_of_ne h _ _) rfl rfl
      rw [hnil] at hopened
      exact hopened
  · rename_i hp
    rw [hp, Option.isSome_none] at h
    rw [if_pos (h.resolve_right nofun)]
    refine ⟨w.inodes, _, rfl, ?_⟩
    have hnil : (w.create p).content w.inodes = [] := Function.update_self ..
    have hopened : Opened w ((w.create p).openInode w.inodes (Nat.lt_succ_self _)) p w.fds w.inodes
        ((w.create p).content w.inodes) :=
      opened_openInode (if_pos rfl) (Nat.lt_succ_self _) (fun h => if_neg h)
        (fun hq _ => by rw [dir_create, if_neg hq]; exact dir_ne_inodes)
        (fun h => Function.update_of_ne h _ _) rfl rfl
    rw [hnil] at hopened
    simpa [lookup, hp] using hopened

theorem dir_exec_openFile {create truncate : Bool} (h : w.dir p = some i) :
    (exec (.openFile p create truncate) w).2.dir = w.dir := by
  simp only [exec, execOp]
  split
  · split <;> rfl
  · rename_i hp
    cases h.symm.trans hp

theorem exec_createNew (h : w.dir p = none) : exec (.createNew p) w = (.ok (), w.create p) := by
  simp [exec, execOp, h]

theorem exec_createNew_some (h : w.dir p = some i) :
    exec (.createNew p) w = (.error .alreadyExists, w) := by
  simp [exec, execOp, h]

theorem exec_removeFile (h : w.dir p = some i) : exec (.removeFile p) w = (.ok (), w.unlink p) := by
  simp [exec, execOp, h]

theorem exec_removeFile_none (h : w.dir p = none) :
    exec (.removeFile p) w = (.error .notFound, w) := by
  simp [exec, execOp, h]

theorem exec_rename {q : P} (h : w.dir p = some i) :
    exec (.rename p q) w = (.ok (), w.renameEntry p q) := by
  simp [exec, execOp, h]

theorem exec_close (w : FileSystem P) (fd : Nat) : exec (.close fd) w = ((), w.closeFd fd) := rfl

omit [DecidableEq P] in
theorem handles_closeFd (w : FileSystem P) (fd : Nat) : (w.closeFd fd).handles fd = none :=
  if_pos rfl

omit [DecidableEq P] in
theorem handles_closeFd_of_ne {d : Nat} (h : d ≠ fd) : (w.closeFd fd).handles d = w.handles d :=
  if_neg h

omit [DecidableEq P] in
@[simp] theorem lookup_closeFd (w : FileSystem P) (fd : Nat) (p : P) :
    (w.closeFd fd).lookup p = w.lookup p := rfl

theorem lookup_create {q : P} (h : q ≠ p) : (w.create p).lookup q = w.lookup q := by
  rw [lookup, lookup, dir_create, if_neg h]
  cases hq : w.dir q with
  | none => rfl
  | some j =>
    have hj : j ≠ w.inodes := fun hj => dir_ne_inodes (hj ▸ hq)
    exact congrArg some (Function.update_of_ne hj _ _)

theorem lookup_unlink {q : P} (h : q ≠ p) : (w.unlink p).lookup q = w.lookup q := by
  rw [lookup, lookup, dir_unlink, if_neg h, content_unlink]

theorem lookup_renameEntry {q : P} (h : w.dir p = some i) (hbs : w.content i = bs) :
    (w.renameEntry p q).lookup q = some bs := by
  rw [lookup, dir_renameEntry, if_pos rfl, h]
  exact congrArg some hbs

theorem isSome_dir_renameEntry {q r : P} (h : w.dir p = some i) (hr : r ≠ p)
    (hsome : (w.dir r).isSome) : ((w.renameEntry p q).dir r).isSome := by
  rw [dir_renameEntry, if_neg hr, h]
  split
  · rfl
  · exact hsome

end FileSystem

end Driftbrake
