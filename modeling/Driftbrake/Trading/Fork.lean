import Mathlib.Logic.Function.Basic
import Driftbrake.Lib.TraceLogic
import Driftbrake.Trading.Rpc

/-!
# The state of a block over JSON-RPC

`RpcDb` is the database of a simulation: it fetches accounts, slots and block hashes from a node
when the EVM asks for them, and keeps the code of the accounts for `code_by_hash`. The EVM is any
program over the operations of a database.

Over a node that serves the state of a block (`BlockState`), a program runs as it does on the state
itself (`forked_run`). Over a node that answers anything, the code that is found under a hash still
has this hash and is the code of an account that has been loaded (`codeByHash_authentic`).
-/

namespace Driftbrake

abbrev U256 := BitVec 256

/-- `B256`, a hash. -/
abbrev B256 := Vector UInt8 32

/-- Code as `Bytecode::new_raw` makes it. -/
structure Bytecode where
  bytes : List UInt8
deriving DecidableEq

structure AccountInfo where
  balance : U256
  nonce : UInt64
  codeHash : B256
  code : Option Bytecode

/-- The operations of `revm::Database`. -/
inductive DbOp : Type → Type
  | basic (address : Address) : DbOp (Checked RpcError (Option AccountInfo))
  | codeByHash (codeHash : B256) : DbOp (Checked RpcError Bytecode)
  | storage (address : Address) (index : U256) : DbOp (Checked RpcError U256)
  | blockHash (number : U256) : DbOp (Checked RpcError B256)

/-- The account that a reply has brought. -/
def accountOf : Prog.Event DbOp → Option AccountInfo
  | ⟨.basic _, some (.ok info)⟩ => info
  | _ => none

section
variable (fromStrRadix : List Char → Except String U256)

/-- `fromStrRadix` is `U256::from_str_radix` in base 16. -/
def hexToU256 (s : String) : Checked RpcError U256 :=
  match stripHexPrefix s with
  | [] => pure 0
  | digits => .ofExcept ((fromStrRadix digits).mapError .malformed)

end

section
variable (keccak256 : List UInt8 → B256)

def Bytecode.hashSlow (code : Bytecode) : B256 := keccak256 code.bytes

/-- The hash in the account of some code, or of none. -/
def codeHashOf (code : Option Bytecode) : B256 := (code.map (Bytecode.hashSlow keccak256)).getD
  (keccak256 [])

/-- The code that an account of these bytes has. -/
def codeOf (codeBytes : List UInt8) : Option Bytecode :=
  if codeBytes.isEmpty then none else some ⟨codeBytes⟩

end

structure RpcDb where
  client : JsonRpcClient
  blockTag : String
  codeCache : B256 → Option Bytecode

namespace RpcDb

/-- `RpcDbFactory::fresh_db`. -/
def fresh (client : JsonRpcClient) (blockTag : String) : RpcDb :=
  { client, blockTag, codeCache := fun _ => none }

variable (fromStrRadix : List Char → Except String U256) (keccak256 : List UInt8 → B256)
  (self : RpcDb)

/-- A request about an account. -/
def callAt (method : String) (address : Address) : Except RpcError Json :=
  self.client.call method (.array [.string (bytesHex address.toList), .string self.blockTag])

/-- The code goes into the cache when nothing can fail any more. -/
def cacheCode (code : Option Bytecode) : RpcDb :=
  match code with
  | some bytecode =>
    { self with
      codeCache := Function.update self.codeCache (bytecode.hashSlow keccak256) (some bytecode) }
  | none => self

@[simp] theorem cacheCode_none : self.cacheCode keccak256 none = self := rfl

@[simp] theorem codeCache_cacheCode (code : Bytecode) :
    (self.cacheCode keccak256 (some code)).codeCache =
      Function.update self.codeCache (code.hashSlow keccak256) (some code) := rfl

def basic (address : Address) : Checked RpcError (Option AccountInfo × RpcDb) := do
  let balanceHex ← .ofExcept (self.callAt "eth_getBalance" address)
  let nonceHex ← .ofExcept (self.callAt "eth_getTransactionCount" address)
  let codeHex ← .ofExcept (self.callAt "eth_getCode" address)
  let balance ← hexToU256 fromStrRadix (balanceHex.asStr.getD "0x0")
  let nonce ← hexToU64 (nonceHex.asStr.getD "0x0")
  let codeBytes ← hexToBytes (codeHex.asStr.getD "0x")
  let code := codeOf codeBytes
  pure (some { balance, nonce, codeHash := codeHashOf keccak256 code, code },
    self.cacheCode keccak256 code)

/-- `render` is the `Display` of a hash. -/
def codeByHash (render : B256 → String) (codeHash : B256) : Checked RpcError Bytecode :=
  .okOr (self.codeCache codeHash)
    (.malformed ("code for hash " ++ render codeHash ++ " was not seen via basic()"))

def storage (address : Address) (index : U256) : Checked RpcError U256 := do
  let slotHex := quantityHex index.toNat
  let valueHex ← .ofExcept (self.client.call "eth_getStorageAt"
    (.array [.string (bytesHex address.toList), .string slotHex, .string self.blockTag]))
  hexToU256 fromStrRadix (valueHex.asStr.getD "0x0")

def blockHash (number : U256) : Checked RpcError B256 := do
  let numberHex := quantityHex number.toNat
  let block ← .ofExcept (self.client.call "eth_getBlockByNumber"
    (.array [.string numberHex, .bool false]))
  let hashHex ← .okOr (block.strField "hash") (.malformed "block response missing hash")
  copyFromSlice (← hexToBytes hashHex)

end RpcDb

/-- What a database does with an operation; one that fails leaves it as it is. -/
def RpcDb.handler (fromStrRadix : List Char → Except String U256) (keccak256 : List UInt8 → B256)
    (render : B256 → String) : Handler DbOp RpcDb where
  step op db := match op with
    | .basic address =>
      match (db.basic fromStrRadix keccak256 address).run with
      | some (.ok (info, db')) => (pure info, db')
      | some (.error e) => (throw e, db)
      | none => (Checked.panic, db)
    | .codeByHash codeHash => (db.codeByHash render codeHash, db)
    | .storage address index => (db.storage fromStrRadix address index, db)
    | .blockHash number => (db.blockHash number, db)

section
variable {fromStrRadix : List Char → Except String U256} {keccak256 : List UInt8 → B256}
  {render : B256 → String}

theorem hexToU256_of_digits {s : String} {digits : List Char} {n : U256}
    (hs : stripHexPrefix s = digits) (hne : digits ≠ []) (hn : fromStrRadix digits = .ok n) :
    (hexToU256 fromStrRadix s).Returns n := by
  rw [hexToU256, hs]
  cases digits with
  | nil => exact absurd rfl hne
  | cons d digits =>
    show (Checked.ofExcept _).Returns n
    rw [hn]
    rfl

/-- An operation that returns a value replies with it. -/
theorem Checked.Returns.eq_pure {ε α : Type} {x : Checked ε α} {a : α} (h : x.Returns a) :
    x = pure a := h

namespace RpcDb

variable {db db' : RpcDb} {address : Address} {info : Option AccountInfo}

/-- An account that has been fetched is replied, with the cache behind it. -/
theorem handler_basic (h : (db.basic fromStrRadix keccak256 address).Returns (info, db')) :
    handler fromStrRadix keccak256 render (.basic address) db = (pure info, db') := by
  simp only [handler]
  rw [h]

/-- A reply with an account goes with its code in the cache; any other leaves the cache. -/
theorem handler_basic_cases (fromStrRadix : List Char → Except String U256)
    (keccak256 : List UInt8 → B256) (render : B256 → String) (db : RpcDb) (address : Address) :
    (∃ info, (handler fromStrRadix keccak256 render (.basic address) db).1 = pure (some info) ∧
      info.codeHash = codeHashOf keccak256 info.code ∧
      (handler fromStrRadix keccak256 render (.basic address) db).2 =
        db.cacheCode keccak256 info.code) ∨
    accountOf ⟨.basic address, (handler fromStrRadix keccak256 render (.basic address) db).1⟩ =
        none ∧
      (handler fromStrRadix keccak256 render (.basic address) db).2 = db := by
  simp only [handler]
  cases hbasic : (db.basic fromStrRadix keccak256 address).run with
  | none => exact .inr ⟨rfl, rfl⟩
  | some r =>
    cases r with
    | error e => exact .inr ⟨rfl, rfl⟩
    | ok found =>
      have hreturns : (db.basic fromStrRadix keccak256 address).Returns found := hbasic
      simp only [basic, Checked.returns_bind, Checked.returns_pure] at hreturns
      obtain ⟨_, -, _, -, _, -, _, -, _, -, codeBytes, -, rfl⟩ := hreturns
      exact .inl ⟨_, rfl, rfl, rfl⟩

end RpcDb

end

/-! ## The state of a block -/

/-- The state of a chain at the block of a simulation. -/
structure BlockState where
  balance : Address → U256
  nonce : Address → UInt64
  /-- The code of an account, empty for an account without code. -/
  code : Address → List UInt8
  storage : Address → U256 → U256
  blockHash : U256 → B256

namespace BlockState

variable (state : BlockState) (keccak256 : List UInt8 → B256) (render : B256 → String)

def account (address : Address) : AccountInfo where
  balance := state.balance address
  nonce := state.nonce address
  codeHash := codeHashOf keccak256 (codeOf (state.code address))
  code := codeOf (state.code address)

/-- The code with a hash, of the accounts `seen`, the last one first. -/
def codeSeen : List Address → B256 → Option Bytecode
  | [], _ => none
  | address :: seen, codeHash =>
    match codeOf (state.code address) with
    | some code => if codeHash = code.hashSlow keccak256 then some code else codeSeen seen codeHash
    | none => codeSeen seen codeHash

/-- The database that holds the whole state; all it has to remember is which accounts it was asked
for. -/
def handler : Handler DbOp (List Address) where
  step op seen := match op with
    | .basic address => (pure (some (state.account keccak256 address)), address :: seen)
    | .codeByHash codeHash =>
      (.okOr (state.codeSeen keccak256 seen codeHash)
        (.malformed ("code for hash " ++ render codeHash ++ " was not seen via basic()")), seen)
    | .storage address index => (pure (state.storage address index), seen)
    | .blockHash number => (pure (state.blockHash number), seen)

/-- A number in a response, with any number of zeros in front. -/
def WordHex (s : String) (n : Nat) : Prop :=
  ∃ zeros, s = String.ofList ('0' :: 'x' :: (List.replicate zeros '0' ++ Nat.toDigits 16 n))

/-- The client is connected to a node that has the state of the block with the tag. -/
structure ServedBy (client : JsonRpcClient) (blockTag : String) : Prop where
  balance : ∀ address : Address,
    client.call "eth_getBalance" (.array [.string (bytesHex address.toList), .string blockTag]) =
      .ok (.string (quantityHex (state.balance address).toNat))
  nonce : ∀ address : Address,
    client.call "eth_getTransactionCount"
      (.array [.string (bytesHex address.toList), .string blockTag]) =
        .ok (.string (quantityHex (state.nonce address).toNat))
  code : ∀ address : Address,
    client.call "eth_getCode" (.array [.string (bytesHex address.toList), .string blockTag]) =
      .ok (.string (bytesHex (state.code address)))
  storage : ∀ (address : Address) (index : U256), ∃ word,
    client.call "eth_getStorageAt" (.array [.string (bytesHex address.toList),
      .string (quantityHex index.toNat), .string blockTag]) = .ok (.string word) ∧
    WordHex word (state.storage address index).toNat
  blockHash : ∀ number : U256, ∃ block,
    client.call "eth_getBlockByNumber"
      (.array [.string (quantityHex number.toNat), .bool false]) = .ok block ∧
    block.strField "hash" = some (bytesHex (state.blockHash number).toList)

end BlockState

/-- The parser of the library reads the digits of every number that fits. -/
def ReadsHex (fromStrRadix : List Char → Except String U256) : Prop :=
  ∀ (digits : List Char) (n : Nat), digits ≠ [] → Hex.read 0 digits = some n → n < 2 ^ 256 →
    fromStrRadix digits = .ok (.ofNat 256 n)

section
variable {fromStrRadix : List Char → Except String U256} {keccak256 : List UInt8 → B256}
  {render : B256 → String} {state : BlockState} {client : JsonRpcClient} {blockTag : String}

theorem BlockState.wordHex_quantityHex (n : Nat) : BlockState.WordHex (quantityHex n) n := ⟨0, rfl⟩

theorem hexToU256_word (hreads : ReadsHex fromStrRadix) {s : String} {n : U256}
    (hs : BlockState.WordHex s n.toNat) : (hexToU256 fromStrRadix s).Returns n := by
  obtain ⟨zeros, rfl⟩ := hs
  have hne : List.replicate zeros '0' ++ Nat.toDigits 16 n.toNat ≠ [] := by simp
  refine hexToU256_of_digits (by rw [stripHexPrefix, String.toList_ofList]; rfl) hne ?_
  rw [hreads _ n.toNat hne (by rw [Hex.read_zeros, Hex.read_toDigits]) n.isLt,
    BitVec.ofNat_toNat, BitVec.setWidth_eq]

section
variable (hserved : state.ServedBy client blockTag)
include hserved

theorem basic_served (hreads : ReadsHex fromStrRadix) {db : RpcDb} (hclient : db.client = client)
    (htag : db.blockTag = blockTag) (address : Address) :
    (db.basic fromStrRadix keccak256 address).Returns
      (some (state.account keccak256 address),
        db.cacheCode keccak256 (codeOf (state.code address))) := by
  simp only [RpcDb.basic, RpcDb.callAt, hclient, htag, Checked.returns_bind,
    Checked.returns_ofExcept, Checked.returns_pure]
  exact ⟨_, hserved.balance address, _, hserved.nonce address, _, hserved.code address,
    _, hexToU256_word hreads (BlockState.wordHex_quantityHex _),
    _, hexToU64_returns.mpr (hexNumber_quantityHex _),
    _, hexToBytes_returns.mpr (hexBytes_bytesHex _), rfl⟩

theorem storage_served (hreads : ReadsHex fromStrRadix) {db : RpcDb} (hclient : db.client = client)
    (htag : db.blockTag = blockTag) (address : Address) (index : U256) :
    (db.storage fromStrRadix address index).Returns (state.storage address index) := by
  obtain ⟨word, hcall, hword⟩ := hserved.storage address index
  simp only [RpcDb.storage, hclient, htag, Checked.returns_bind, Checked.returns_ofExcept]
  exact ⟨_, hcall, hexToU256_word hreads hword⟩

theorem blockHash_served {db : RpcDb} (hclient : db.client = client) (number : U256) :
    (db.blockHash number).Returns (state.blockHash number) := by
  obtain ⟨block, hcall, hhash⟩ := hserved.blockHash number
  simp only [RpcDb.blockHash, hclient, Checked.returns_bind, Checked.returns_ofExcept,
    Checked.returns_okOr, hexToBytes_returns, copyFromSlice_returns]
  exact ⟨_, hcall, _, hhash, _, hexBytes_bytesHex _, rfl⟩

end

/-- The database after the accounts `seen`. -/
def RpcDb.after (state : BlockState) (keccak256 : List UInt8 → B256) (client : JsonRpcClient)
    (blockTag : String) (seen : List Address) : RpcDb where
  client := client
  blockTag := blockTag
  codeCache := state.codeSeen keccak256 seen

theorem RpcDb.cacheCode_after (address : Address) (seen : List Address) :
    (RpcDb.after state keccak256 client blockTag seen).cacheCode keccak256
        (codeOf (state.code address)) =
      RpcDb.after state keccak256 client blockTag (address :: seen) := by
  cases hcode : codeOf (state.code address) with
  | none =>
    have hseen : state.codeSeen keccak256 (address :: seen) = state.codeSeen keccak256 seen :=
      funext fun h => by simp only [BlockState.codeSeen, hcode]
    rw [RpcDb.cacheCode, RpcDb.after, RpcDb.after, hseen]
  | some code =>
    have hseen : state.codeSeen keccak256 (address :: seen) =
        Function.update (state.codeSeen keccak256 seen) (code.hashSlow keccak256) (some code) :=
      funext fun h => by simp only [BlockState.codeSeen, hcode, Function.update_apply]
    rw [RpcDb.cacheCode, RpcDb.after, RpcDb.after, hseen]

/-- One operation on the forked database is the operation on the state. -/
theorem handler_served (hserved : state.ServedBy client blockTag)
    (hreads : ReadsHex fromStrRadix) {α : Type} (op : DbOp α) (seen : List Address) :
    RpcDb.handler fromStrRadix keccak256 render op
        (RpcDb.after state keccak256 client blockTag seen) =
      ((state.handler keccak256 render op seen).1,
        RpcDb.after state keccak256 client blockTag
          (state.handler keccak256 render op seen).2) := by
  cases op with
  | basic address =>
    rw [RpcDb.handler_basic (basic_served hserved hreads rfl rfl address), RpcDb.cacheCode_after]
    rfl
  | codeByHash codeHash => rfl
  | storage address index =>
    exact congrArg (·, _) (storage_served hserved hreads rfl rfl address index).eq_pure
  | blockHash number => exact congrArg (·, _) (blockHash_served hserved rfl number).eq_pure

/-- A program on the forked database is the program on the state. -/
theorem run_after (hserved : state.ServedBy client blockTag) (hreads : ReadsHex fromStrRadix)
    {α : Type} (p : Prog DbOp α) (seen : List Address) :
    p.run (RpcDb.handler fromStrRadix keccak256 render)
        (RpcDb.after state keccak256 client blockTag seen) =
      ((p.run (state.handler keccak256 render) seen).1, RpcDb.after state keccak256 client blockTag
        (p.run (state.handler keccak256 render) seen).2) :=
  Prog.run_simulates (fun op seen => handler_served hserved hreads op seen) p seen

theorem RpcDb.fresh_eq_after :
    RpcDb.fresh client blockTag = RpcDb.after state keccak256 client blockTag [] := rfl

/-- **A fork is the state of its block.** Over a node that serves the state of a block, every
program that runs on a fresh database, in particular a simulation by the EVM, comes to the result it
has on the state itself: no field is misread, and nothing fails but a question for the code under a
hash that no account asked for before has. -/
theorem forked_run (hserved : state.ServedBy client blockTag) (hreads : ReadsHex fromStrRadix)
    {α : Type} (p : Prog DbOp α) :
    (p.run (RpcDb.handler fromStrRadix keccak256 render) (.fresh client blockTag)).1 =
      (p.run (state.handler keccak256 render) []).1 := by
  rw [RpcDb.fresh_eq_after, run_after hserved hreads]

end

/-- A state in which all accounts are alike. -/
def sampleState : BlockState where
  balance _ := 5
  nonce _ := 1
  code _ := [0x60]
  storage _ _ := 7
  blockHash _ := Vector.replicate 32 3

/-- A node with this state. -/
def sampleNode : JsonRpcClient where
  post body :=
    let result := match body.strField "method" with
      | some "eth_getBalance" => .string (quantityHex 5)
      | some "eth_getTransactionCount" => .string (quantityHex 1)
      | some "eth_getCode" => .string (bytesHex [0x60])
      | some "eth_getStorageAt" => .string (quantityHex 7)
      | some "eth_gasPrice" => .string (quantityHex 20000000000)
      | _ => .object [("hash", .string (bytesHex (Vector.replicate 32 (3 : UInt8)).toList)),
          ("number", .string (quantityHex 16)), ("timestamp", .string (quantityHex 1700000000)),
          ("gasLimit", .string (quantityHex 30000000))]
    .ok (.object [("result", result)])
  render _ := ""
  joinError := ""

theorem sampleState_served (blockTag : String) : sampleState.ServedBy sampleNode blockTag where
  balance _ := rfl
  nonce _ := rfl
  code _ := rfl
  storage _ _ := ⟨_, rfl, BlockState.wordHex_quantityHex 7⟩
  blockHash _ := ⟨_, rfl, rfl⟩

/-- The parser of the standard library, at 256 bits. -/
def sampleRadix (digits : List Char) : Except String U256 :=
  ((Hex.fromStrRadix (2 ^ 256) digits).map (.ofNat 256)).mapError Hex.ParseError.toText

theorem sampleRadix_readsHex : ReadsHex sampleRadix := by
  intro digits n hne hread hlt
  have hnumeral : Hex.Numeral digits n := ⟨digits, hne, .inl rfl, hread⟩
  rw [sampleRadix, (Hex.fromStrRadix_eq_ok (Nat.two_pow_pos 256)).mpr ⟨hnumeral, hlt⟩]
  rfl

/-- A hash that is told by the length. -/
def sampleHash (bytes : List UInt8) : B256 := Vector.replicate 32 (.ofNat bytes.length)

/-- The account `0` and the code under a hash. -/
def sampleQueries (codeHash : B256) : Prog DbOp (Checked RpcError Bytecode) := do
  let _ ← .perform (.basic (Vector.replicate 20 0))
  .perform (.codeByHash codeHash)

theorem forked_run_sample :
    ((sampleQueries (sampleHash [0x60])).run
      (RpcDb.handler sampleRadix sampleHash fun _ => "") (.fresh sampleNode "0x10")).1 =
        pure ⟨[0x60]⟩ :=
  (forked_run (sampleState_served _) sampleRadix_readsHex _).trans rfl

/-! ## Any node -/

/-- The accounts that the replies of a run have brought. -/
def accounts (tr : List (Prog.Event DbOp)) : List AccountInfo := tr.filterMap accountOf

/-- The cache has the code of the accounts that were loaded, each under its hash. -/
structure RpcDb.Loaded (keccak256 : List UInt8 → B256) (tr : List (Prog.Event DbOp)) (db : RpcDb) :
    Prop where
  hashed : ∀ info ∈ accounts tr, info.codeHash = codeHashOf keccak256 info.code
  cached : ∀ codeHash code, db.codeCache codeHash = some code →
    code.hashSlow keccak256 = codeHash ∧ ∃ info ∈ accounts tr, info.code = some code
  loaded : ∀ info ∈ accounts tr, ∀ code, info.code = some code →
    (db.codeCache (code.hashSlow keccak256)).isSome

section
variable {fromStrRadix : List Char → Except String U256} {keccak256 : List UInt8 → B256}
  {render : B256 → String} {db : RpcDb} {tr : List (Prog.Event DbOp)} {e : Prog.Event DbOp}
  {info : AccountInfo} {σ : Type}

theorem mem_accounts_append :
    info ∈ accounts (tr ++ [e]) ↔ info ∈ accounts tr ∨ accountOf e = some info := by
  simp [accounts]

namespace RpcDb

theorem loaded_fresh (hfresh : db.codeCache = fun _ => none) : Loaded keccak256 [] db where
  hashed := nofun
  cached _ _ h := by
    rw [hfresh] at h
    cases h
  loaded := nofun

theorem codeCache_isSome_cacheCode {codeHash : B256} (code : Option Bytecode)
    (h : (db.codeCache codeHash).isSome) :
    ((db.cacheCode keccak256 code).codeCache codeHash).isSome := by
  cases code with
  | none => exact h
  | some code =>
    rw [codeCache_cacheCode, Function.update_apply]
    split
    · rfl
    · exact h

namespace Loaded

/-- Nothing but the cache counts. -/
theorem congr {db' : RpcDb} (H : Loaded keccak256 tr db) (h : db'.codeCache = db.codeCache) :
    Loaded keccak256 tr db' := by
  refine ⟨H.hashed, ?_, ?_⟩
  · rw [h]
    exact H.cached
  · rw [h]
    exact H.loaded

/-- A reply without an account leaves the cache. -/
theorem of_no_account (H : Loaded keccak256 tr db) (he : accountOf e = none) :
    Loaded keccak256 (tr ++ [e]) db := by
  have hmem {info : AccountInfo} : info ∈ accounts (tr ++ [e]) ↔ info ∈ accounts tr := by
    rw [mem_accounts_append, he]
    simp
  refine ⟨fun info h => H.hashed info (hmem.mp h), fun codeHash code h => ?_,
    fun info h => H.loaded info (hmem.mp h)⟩
  obtain ⟨hhash, info, hin, hcode⟩ := H.cached codeHash code h
  exact ⟨hhash, info, hmem.mpr hin, hcode⟩

theorem of_account (H : Loaded keccak256 tr db) (he : accountOf e = some info)
    (hinfo : info.codeHash = codeHashOf keccak256 info.code) :
    Loaded keccak256 (tr ++ [e]) (db.cacheCode keccak256 info.code) := by
  have hlast : info ∈ accounts (tr ++ [e]) := mem_accounts_append.mpr (.inr he)
  have hmem {info' : AccountInfo} (h : info' ∈ accounts (tr ++ [e])) :
      info' ∈ accounts tr ∨ info' = info := by
    refine (mem_accounts_append.mp h).imp_right fun h => ?_
    rw [he] at h
    exact (Option.some.inj h).symm
  have hcached {codeHash : B256} {code : Bytecode} (h : db.codeCache codeHash = some code) :
      code.hashSlow keccak256 = codeHash ∧
        ∃ info' ∈ accounts (tr ++ [e]), info'.code = some code := by
    obtain ⟨hhash, info', hin, hcode⟩ := H.cached codeHash code h
    exact ⟨hhash, info', mem_accounts_append.mpr (.inl hin), hcode⟩
  refine ⟨fun info' h => ?_, fun codeHash code h => ?_, fun info' h code hcode => ?_⟩
  · rcases hmem h with h | rfl
    · exact H.hashed info' h
    · exact hinfo
  · cases hcode : info.code with
    | none =>
      rw [hcode, cacheCode_none] at h
      exact hcached h
    | some new =>
      rw [hcode, codeCache_cacheCode, Function.update_apply] at h
      split at h
      · rename_i hhash
        cases h
        exact ⟨hhash.symm, info, hlast, hcode⟩
      · exact hcached h
  · rcases hmem h with h | rfl
    · exact codeCache_isSome_cacheCode _ (H.loaded info' h code hcode)
    · rw [hcode, codeCache_cacheCode, Function.update_self]
      rfl

/-- One operation, whatever the node answers. -/
theorem step (fromStrRadix : List Char → Except String U256) (render : B256 → String)
    (H : Loaded keccak256 tr db) {α : Type} (op : DbOp α) :
    Loaded keccak256 (tr ++ [⟨op, (handler fromStrRadix keccak256 render op db).1⟩])
      (handler fromStrRadix keccak256 render op db).2 := by
  cases op with
  | basic address =>
    obtain ⟨info, hreply, hinfo, hdb⟩ | ⟨hreply, hdb⟩ :=
      handler_basic_cases fromStrRadix keccak256 render db address
    · rw [hreply, hdb]
      exact H.of_account rfl hinfo
    · rw [hdb]
      exact H.of_no_account hreply
  | codeByHash codeHash => exact H.of_no_account rfl
  | storage address index => exact H.of_no_account rfl
  | blockHash number => exact H.of_no_account rfl

end Loaded

end RpcDb

/-- `h` does the operations on the database `db s` of its state. Its node may be another one at
every operation; as no two requests of an operation are alike, this includes a node that changes
between them. -/
structure RpcDb.RunsIn (fromStrRadix : List Char → Except String U256)
    (keccak256 : List UInt8 → B256) (render : B256 → String) (h : Handler DbOp σ) (db : σ → RpcDb) :
    Prop where
  reply : ∀ {β : Type} (op : DbOp β) (s : σ),
    (h op s).1 = (RpcDb.handler fromStrRadix keccak256 render op (db s)).1
  codeCache : ∀ {β : Type} (op : DbOp β) (s : σ),
    (db (h op s).2).codeCache =
      (RpcDb.handler fromStrRadix keccak256 render op (db s)).2.codeCache

theorem RpcDb.RunsIn.step {h : Handler DbOp σ} {db : σ → RpcDb}
    (H : RunsIn fromStrRadix keccak256 render h db) {β : Type} (op : DbOp β) {s : σ}
    (hs : Loaded keccak256 tr (db s)) :
    Loaded keccak256 (tr ++ [⟨op, (h op s).1⟩]) (db (h op s).2) := by
  rw [H.reply op s]
  exact (hs.step fromStrRadix render op).congr (H.codeCache op s)

/-- **The code under a hash is authentic.** Whatever the node answers, at every operation of a
database that is fresh at first, and whatever a program asks: the code that it is given for a hash
has this hash and came with an account that was loaded before; and once an account with code was
loaded, its code hash is never refused. -/
theorem codeByHash_authentic {h : Handler DbOp σ} {db : σ → RpcDb}
    (H : RpcDb.RunsIn fromStrRadix keccak256 render h db) {s : σ}
    (hs : (db s).codeCache = fun _ => none) {α : Type}
    {p : Prog DbOp α} {before after : List (Prog.Event DbOp)} {codeHash : B256}
    {reply : Checked RpcError Bytecode}
    (hsplit : p.trace h s = before ++ ⟨.codeByHash codeHash, reply⟩ :: after) :
    (∀ code, reply.Returns code → code.hashSlow keccak256 = codeHash ∧
      ∃ info ∈ accounts before, info.code = some code ∧ info.codeHash = codeHash) ∧
    ∀ info ∈ accounts before, info.code.isSome → info.codeHash = codeHash →
      ∃ code, reply.Returns code := by
  obtain ⟨s', hloaded, hreply⟩ := Prog.exists_state_of_trace
    (I := fun tr s => RpcDb.Loaded keccak256 tr (db s)) (fun op _ _ hs => H.step op hs)
    (RpcDb.loaded_fresh hs) hsplit
  rw [List.nil_append] at hloaded
  have hreturns {code : Bytecode} :
      reply.Returns code ↔ (db s').codeCache codeHash = some code := by
    have hcode : reply = (db s').codeByHash render codeHash :=
      hreply.trans (H.reply (.codeByHash codeHash) s')
    rw [hcode, RpcDb.codeByHash, Checked.returns_okOr]
  constructor
  · intro code hcode
    obtain ⟨hhash, info, hin, hinfo⟩ := hloaded.cached _ _ (hreturns.mp hcode)
    refine ⟨hhash, info, hin, hinfo, ?_⟩
    rw [hloaded.hashed info hin, hinfo, ← hhash]
    rfl
  · intro info hin hsome hhash
    obtain ⟨code, hcode⟩ := Option.isSome_iff_exists.mp hsome
    have hcodeHash : code.hashSlow keccak256 = codeHash := by
      rw [← hhash, hloaded.hashed info hin, hcode]
      rfl
    have hcached := hloaded.loaded info hin code hcode
    rw [hcodeHash] at hcached
    obtain ⟨found, hfound⟩ := Option.isSome_iff_exists.mp hcached
    exact ⟨found, hreturns.mpr hfound⟩

end

/-- The database with the node `clients n` at its operation `n`. -/
def RpcDb.handlerOver (fromStrRadix : List Char → Except String U256)
    (keccak256 : List UInt8 → B256) (render : B256 → String) (clients : ℕ → JsonRpcClient) :
    Handler DbOp (ℕ × RpcDb) where
  step op s :=
    let next := handler fromStrRadix keccak256 render op { s.2 with client := clients s.1 }
    (next.1, s.1 + 1, next.2)

/-- A node that is there for one operation. -/
def sampleNodes : ℕ → JsonRpcClient
  | 0 => sampleNode
  | _ + 1 => { sampleNode with post := fun _ => .error (.malformed "") }

theorem codeByHash_authentic_sample :
    (∀ code, (pure ⟨[0x60]⟩ : Checked RpcError Bytecode).Returns code →
      code.hashSlow sampleHash = sampleHash [0x60]) ∧
    ∃ code, (pure ⟨[0x60]⟩ : Checked RpcError Bytecode).Returns code := by
  have hruns : RpcDb.RunsIn sampleRadix sampleHash (fun _ => "")
      (RpcDb.handlerOver sampleRadix sampleHash (fun _ => "") sampleNodes)
      (fun s => { s.2 with client := sampleNodes s.1 }) := ⟨fun _ _ => rfl, fun _ _ => rfl⟩
  have hsplit : (sampleQueries (sampleHash [0x60])).trace
      (RpcDb.handlerOver sampleRadix sampleHash (fun _ => "") sampleNodes)
      (0, .fresh sampleNode "0x10") =
      [⟨.basic (Vector.replicate 20 0),
        pure (some (sampleState.account sampleHash (Vector.replicate 20 0)))⟩] ++
      ⟨.codeByHash (sampleHash [0x60]), pure ⟨[0x60]⟩⟩ :: [] := rfl
  obtain ⟨hauthentic, hkept⟩ := codeByHash_authentic hruns rfl hsplit
  exact ⟨fun code h => (hauthentic code h).1, hkept _ (List.mem_singleton_self _) rfl rfl⟩

end Driftbrake
