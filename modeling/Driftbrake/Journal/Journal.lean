import Driftbrake.Journal.Format
import Driftbrake.Lib.FileSystem
import Driftbrake.Lib.Path

/-!
# `JournaledHistory`

The methods of the journal as programs over the file system operations. The clock is read once by a
method that needs it, so its reading is an argument. A method with `&mut self` returns the journal
it leaves behind, also when it fails; a value that is dropped closes its file and, for the lock
guard, removes the lock file, in the order of the source.
-/

namespace Driftbrake

inductive JournalError
  | io (e : IoError)
  | invalidMagic
  | unsupportedVersion (version : Nat)
  | checksumMismatch (offset : Nat)
  | alreadyLocked (path : Path)
deriving DecidableEq, Repr

/-- A journal operation that can fail. -/
abbrev Io (α : Type) := ExceptT JournalError (Prog (FsOp Path)) α

open Prog (perform)

/-- An operation whose error is an `Io` error of the journal: the `?` of the source. -/
abbrev io {α : Type} (o : FsOp Path (Except IoError α)) : Io α := Prog.attempt .io o

/-- An operation whose error the method looks at itself. -/
abbrev ask {α : Type} (o : FsOp Path α) : Io α := liftM (perform o)

def lockExtension : List Char := "lock".toList
def compactExtension : List Char := "compact".toList

def Path.lockPath (path : Path) : Path := path.withExtension lockExtension

/-- A journal path. -/
def driftJournal : Path := ⟨"/var/lib", "drift.journal".toList⟩

structure JournaledHistory where
  inner : ReconcileHistory
  /-- The descriptor of the open journal file. -/
  file : Nat
  path : Path
  maxRetainedEntries : Nat

/-! ## Opening -/

/-- `file.set_len(valid_offset)?; file.seek(SeekFrom::Start(valid_offset))?`. -/
def truncateTo (file validOffset : Nat) : Io Unit := do
  io (.setLen file validOffset)
  io (.seekStart file validOffset)

/-- The replay loop, with `validOffset` the end of the last accepted frame. `fuel` bounds the number
of frames. -/
def replay (file : Nat) : Nat → Nat → ReconcileHistory → Io ReconcileHistory
  | 0, _, inner => pure inner
  | fuel + 1, validOffset, inner => do
    match ← ask (.readExact file 9) with
    | .error .unexpectedEof =>
      truncateTo file validOffset
      pure inner
    | .error e => throw (.io e)
    | .ok meta9 =>
      match ← ask (.readExact file (metaLen meta9)) with
      | .error .unexpectedEof =>
        truncateTo file validOffset
        pure inner
      | .error e => throw (.io e)
      | .ok payload =>
        if crc32 payload ≠ metaCrc meta9 then
          truncateTo file validOffset
          pure inner
        else if metaTag meta9 = tagPair ∧ metaLen meta9 = 40 then
          let (predicted, realized) := decodePair payload
          let validOffset ← io (.streamPosition file)
          replay file fuel validOffset (inner.append predicted realized)
        else if metaTag meta9 = tagRevert ∧ 74 ≤ metaLen meta9 then
          let event := decodeRevert payload
          let validOffset ← io (.streamPosition file)
          replay file fuel validOffset (inner.recordRevert event)
        else
          truncateTo file validOffset
          pure inner

/-- An empty file gets a header, any other is replayed. -/
def load (file fileLen : Nat) (epochMs : UInt64) : Io ReconcileHistory :=
  if fileLen = 0 then do
    io (.writeAll file (header epochMs))
    io (.flush file)
    pure .new
  else do
    io (.seekStart file 0)
    let head ← io (.readExact file headerSize)
    let version := ofBe (slice head 4 6)
    if head.take 4 ≠ magic then throw .invalidMagic
    else if version ≠ currentVersion then throw (.unsupportedVersion version)
    else replay file fileLen headerSize .new

/-- What `open_or_create` does with the open file. -/
def recover (file : Nat) (epochMs : UInt64) : Io ReconcileHistory := do
  let fileLen ← io (.len file)
  let inner ← load file fileLen epochMs
  io (.seekEnd file)
  pure inner

def openOrCreate (path : Path) (maxRetainedEntries : Nat) (epochMs : UInt64) :
    Prog (FsOp Path) (Except JournalError JournaledHistory) := do
  match ← perform (.createNew path.lockPath) with
  | .error .alreadyExists => pure (.error (.alreadyLocked path.lockPath))
  | .error e => pure (.error (.io e))
  | .ok () =>
    match ← perform (.openFile path true false) with
    | .error e =>
      let _ ← perform (.removeFile path.lockPath)
      pure (.error (.io e))
    | .ok file =>
      match ← (recover file epochMs).run with
      | .error e =>
        perform (.close file)
        let _ ← perform (.removeFile path.lockPath)
        pure (.error e)
      | .ok inner => pure (.ok ⟨inner, file, path, maxRetainedEntries⟩)

namespace JournaledHistory

/-- A journal that is dropped: the file is closed, then the lock guard removes the lock file. -/
def drop (self : JournaledHistory) : Prog (FsOp Path) Unit := do
  perform (.close self.file)
  let _ ← perform (.removeFile self.path.lockPath)

/-! ## Appending -/

/-- A method with `&mut self`. -/
abbrev Method := Prog (FsOp Path) (Except JournalError Unit × JournaledHistory)

end JournaledHistory

/-- The two writes of a frame. -/
def writeFrame (file : Nat) (tag : UInt8) (payload : List UInt8) : Io Unit := do
  io (.writeAll file (metaBytes tag payload.length (crc32 payload)))
  io (.writeAll file payload)

/-- A frame and the flush behind it. -/
def writeRecord (file : Nat) (tag : UInt8) (payload : List UInt8) : Io Unit := do
  writeFrame file tag payload
  io (.flush file)

namespace JournaledHistory

/-- A frame is written, and what it records reaches the memory only then. -/
def commit (self : JournaledHistory) (tag : UInt8) (payload : List UInt8)
    (inner : ReconcileHistory) : Method := do
  match ← (writeRecord self.file tag payload).run with
  | .error e => pure (.error e, self)
  | .ok () => pure (.ok (), { self with inner })

def append (self : JournaledHistory) (predicted : PredictedProfit) (realized : RealizedProfit)
    (timestampMs : UInt64) : Method :=
  self.commit tagPair (encodePair predicted realized timestampMs)
    (self.inner.append predicted realized)

def recordRevert (self : JournaledHistory) (event : RevertEvent) (timestampMs : UInt64) :
    Method :=
  self.commit tagRevert (encodeRevert event timestampMs) (self.inner.recordRevert event)

/-- The call that records an entry. -/
def record (self : JournaledHistory) (timestampMs : UInt64) : HistoryEntry → Method
  | .confirmedPair predicted realized => self.append predicted realized timestampMs
  | .revertedTx event => self.recordRevert event timestampMs

/-- One call of `append` or `record_revert`, with the clock at its start. -/
structure Call where
  timestampMs : UInt64
  entry : HistoryEntry

/-- Calls one after the other, up to the first that fails. -/
def recordAll (self : JournaledHistory) : List Call → Method
  | [] => pure (.ok (), self)
  | call :: calls => do
    match ← self.record call.timestampMs call.entry with
    | (.ok (), self) => self.recordAll calls
    | (.error e, self) => pure (.error e, self)

/-- The journal is dropped and opened again. -/
def reopen (self : JournaledHistory) (maxRetainedEntries : Nat) (epochMs : UInt64) :
    Prog (FsOp Path) (Except JournalError JournaledHistory) := do
  self.drop
  openOrCreate self.path maxRetainedEntries epochMs

/-! ## Compaction -/

/-- The frames of the compacted file; their timestamp is 0. -/
def writeEntries (file : Nat) : List HistoryEntry → Io Unit
  | [] => pure ()
  | .confirmedPair predicted realized :: entries => do
    writeFrame file tagPair (encodePair predicted realized 0)
    writeEntries file entries
  | .revertedTx event :: entries => do
    writeFrame file tagRevert (encodeRevert event 0)
    writeEntries file entries

/-- The content of the compacted file. -/
def writeSnapshot (file : Nat) (epochMs : UInt64) (entries : List HistoryEntry) : Io Unit := do
  io (.writeAll file (header epochMs))
  writeEntries file entries
  io (.flush file)

/-- `tempPath`, the file that replaces the journal. -/
def tempPath (self : JournaledHistory) : Path := self.path.withExtension compactExtension

/-- The second half of `compact`: the journal is replaced by the temporary file and reopened. -/
def install (self : JournaledHistory) : Method := do
  match ← perform (.rename self.tempPath self.path) with
  | .error e => pure (.error (.io e), self)
  | .ok () =>
    match ← perform (.openFile self.path false false) with
    | .error e => pure (.error (.io e), self)
    | .ok file =>
      perform (.close self.file)
      match ← perform (.seekEnd file) with
      | .error e => pure (.error (.io e), { self with file })
      | .ok () => pure (.ok (), { self with file })

def compact (self : JournaledHistory) (epochMs : UInt64) : Method := do
  if self.inner.timeline.length ≤ self.maxRetainedEntries then
    pure (.ok (), self)
  else
    match ← perform (.openFile self.tempPath true true) with
    | .error e => pure (.error (.io e), self)
    | .ok tempFile =>
      let skip := self.inner.timeline.length - self.maxRetainedEntries
      let written ← (writeSnapshot tempFile epochMs (self.inner.timeline.drop skip)).run
      perform (.close tempFile)
      match written with
      | .error e => pure (.error e, self)
      | .ok () => self.install

end JournaledHistory

end Driftbrake
