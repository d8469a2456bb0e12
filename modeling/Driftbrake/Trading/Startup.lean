import Driftbrake.Trading.Fork
import Driftbrake.Trading.Loop

/-!
# The start of the bot

What `main` asks of a node before the loop: the header of the latest block, the nonce of the caller
and the gas price. The simulations run on a fork of the block of the header. Over a node that serves
these, the bot starts with what the node has, and with a fork of the state that belongs to the
header (`start_served`).
-/

namespace Driftbrake

structure BlockContext where
  number : UInt64
  timestamp : UInt64
  gasLimit : UInt64
  basefee : U128
  coinbase : Address
deriving DecidableEq

/-- `Box<dyn Error>`. -/
inductive StartError
  | rpc (e : RpcError)
  | parse (e : Hex.ParseError)
  | text (s : String)

/-- `trim_start_matches("0x")`, which goes on for as long as there is a prefix. -/
def trimHexPrefixes : List Char → List Char
  | '0' :: 'x' :: cs => trimHexPrefixes cs
  | cs => cs

def parseU64 (hex : String) : Except StartError UInt64 :=
  ((Hex.fromStrRadix (2 ^ 64) (trimHexPrefixes hex.toList)).map .ofNat).mapError .parse

def parseU128 (hex : String) : Except StartError U128 :=
  ((Hex.fromStrRadix (2 ^ 128) (trimHexPrefixes hex.toList)).map .ofNat).mapError .parse

namespace BlockContext

def getU64 (block : Json) (field : String) : Except StartError UInt64 :=
  match block.strField field with
  | some hex => parseU64 hex
  | none => .error (.text ("block response missing " ++ field))

def getU128 (block : Json) (field : String) : Except StartError U128 :=
  parseU128 ((block.strField field).getD "0x0")

/-- The closures of `fetch_block_context` at the fields of a header. A base fee that cannot be read
is `0`. -/
def ofJson (block : Json) : Except StartError BlockContext := do
  let number ← getU64 block "number"
  let timestamp ← getU64 block "timestamp"
  let gasLimit ← getU64 block "gasLimit"
  pure {
    number, timestamp, gasLimit
    basefee := (getU128 block "baseFeePerGas").toOption.getD (.ofNat 0)
    coinbase := Vector.replicate 20 0 }

end BlockContext

section
variable (client : JsonRpcClient)

def fetchBlockContext : Except StartError BlockContext := do
  let block ← (client.call "eth_getBlockByNumber"
    (.array [.string "latest", .bool false])).mapError .rpc
  BlockContext.ofJson block

def fetchNonce (address : Address) : Except StartError UInt64 := do
  let result ← (client.call "eth_getTransactionCount"
    (.array [.string (bytesHex address.toList), .string "pending"])).mapError .rpc
  match result.asStr with
  | some hex => parseU64 hex
  | none => throw (.text "eth_getTransactionCount did not return a string")

def fetchGasPrice : Except StartError U128 := do
  let result ← (client.call "eth_gasPrice" (.array [])).mapError .rpc
  match result.asStr with
  | some hex => parseU128 hex
  | none => throw (.text "eth_gasPrice did not return a string")

end

def hexToBytes32 (s : String) : Checked StartError (Vector UInt8 32) := do
  let bytes ← ExceptT.mk
    ((Hex.decodePairs (stripHexPrefix s)).run.map (Except.mapError .parse))
  if h : bytes.length = 32 then pure ⟨⟨bytes⟩, h⟩
  else throw (.text "PRIVATE_KEY must be exactly 32 bytes of hex")

/-- What the loop starts with: the context and the database of the simulations, the setup and the
state. -/
structure Started where
  block : BlockContext
  db : RpcDb
  setup : Trading.Setup ℚ
  bot : Trading.Bot

/-- `main` up to the loop, without its environment variables. `callerOf` is the key of some bytes
and the address of the key. The assertions of `RevmBackend::new` are about constants. -/
def start (client : JsonRpcClient) (keccak256 : List UInt8 → TxHash) (overflowChecks : Bool)
    (callerOf : Vector UInt8 32 → Except StartError Address) (privateKeyHex : String)
    (chainId blockTimeMs : UInt64) : Checked StartError Started := do
  let caller ← .ofExcept (callerOf (← hexToBytes32 privateKeyHex))
  let block ← .ofExcept (fetchBlockContext client)
  let db := RpcDb.fresh client (quantityHex block.number.toNat)
  match PollerConfig.new blockTimeMs (1 / 2) 10 with
  | none => Checked.panic
  | some pollerConfig => do
    let nonce ← .ofExcept (fetchNonce client caller)
    let gasPrice ← .ofExcept (fetchGasPrice client)
    pure {
      block, db
      setup := .main keccak256 overflowChecks caller chainId gasPrice blockTimeMs pollerConfig
      bot := ⟨nonce, .new⟩ }

/-! ## Over a node that serves its state -/

theorem trimHexPrefixes_of_read {cs : List Char} {n : Nat} (h : Hex.read 0 cs = some n) :
    trimHexPrefixes cs = cs := by
  rw [trimHexPrefixes.eq_def]
  split
  · cases h
  · rfl

theorem trimHexPrefixes_quantityHex (n : Nat) :
    trimHexPrefixes (quantityHex n).toList = Nat.toDigits 16 n := by
  rw [quantityHex, String.toList_ofList, trimHexPrefixes]
  exact trimHexPrefixes_of_read (Hex.read_toDigits n)

theorem parseU64_quantityHex (n : UInt64) : parseU64 (quantityHex n.toNat) = .ok n := by
  rw [parseU64, trimHexPrefixes_quantityHex, (Hex.fromStrRadix_eq_ok (Nat.two_pow_pos 64)).mpr
    ⟨Hex.numeral_toDigits _, n.toNat_lt⟩]
  exact congrArg Except.ok UInt64.ofNat_toNat

theorem parseU128_quantityHex (n : U128) : parseU128 (quantityHex n.toNat) = .ok n := by
  have hlt : n.toNat < 2 ^ 128 := n.toBitVec.isLt
  rw [parseU128, trimHexPrefixes_quantityHex, (Hex.fromStrRadix_eq_ok (Nat.two_pow_pos 128)).mpr
    ⟨Hex.numeral_toDigits _, hlt⟩]
  refine congrArg Except.ok ?_
  rw [U128.ofNat, U128.toNat, BitVec.ofNat_toNat, BitVec.setWidth_eq]

/-- The client is connected to a node with this latest header, in front of London without a fee, and
with these answers about the caller and the price. -/
structure ServesHead (client : JsonRpcClient) (block : BlockContext) (caller : Address)
    (nonce : UInt64) (gasPrice : U128) : Prop where
  header : ∃ doc, client.call "eth_getBlockByNumber" (.array [.string "latest", .bool false]) =
      .ok doc ∧
    doc.strField "number" = some (quantityHex block.number.toNat) ∧
    doc.strField "timestamp" = some (quantityHex block.timestamp.toNat) ∧
    doc.strField "gasLimit" = some (quantityHex block.gasLimit.toNat) ∧
    (doc.strField "baseFeePerGas" = some (quantityHex block.basefee.toNat) ∨
      doc.strField "baseFeePerGas" = none ∧ block.basefee = .ofNat 0)
  coinbase : block.coinbase = Vector.replicate 20 0
  nonce : client.call "eth_getTransactionCount"
    (.array [.string (bytesHex caller.toList), .string "pending"]) =
      .ok (.string (quantityHex nonce.toNat))
  gasPrice : client.call "eth_gasPrice" (.array []) = .ok (.string (quantityHex gasPrice.toNat))

section
variable {client : JsonRpcClient} {block : BlockContext} {caller : Address} {nonce : UInt64}
  {gasPrice : U128}

namespace ServesHead

variable (H : ServesHead client block caller nonce gasPrice)
include H

theorem fetchBlockContext_eq : fetchBlockContext client = .ok block := by
  obtain ⟨doc, hcall, hnumber, htimestamp, hgasLimit, hbasefee⟩ := H.header
  have hfee : (BlockContext.getU128 doc "baseFeePerGas").toOption.getD (.ofNat 0) =
      block.basefee := by
    rw [BlockContext.getU128]
    rcases hbasefee with hfee | ⟨hfee, hzero⟩
    · rw [hfee, Option.getD_some, parseU128_quantityHex]
      rfl
    · rw [hfee, hzero]
      rfl
  rw [fetchBlockContext, hcall]
  show BlockContext.ofJson doc = _
  rw [BlockContext.ofJson, BlockContext.getU64, BlockContext.getU64, BlockContext.getU64, hnumber,
    htimestamp, hgasLimit, hfee, ← H.coinbase]
  simp only [parseU64_quantityHex]
  rfl

theorem fetchNonce_eq : fetchNonce client caller = .ok nonce := by
  rw [fetchNonce, H.nonce]
  exact parseU64_quantityHex nonce

theorem fetchGasPrice_eq : fetchGasPrice client = .ok gasPrice := by
  rw [fetchGasPrice, H.gasPrice]
  exact parseU128_quantityHex gasPrice

end ServesHead

theorem hexToBytes32_returns {s : String} {key : Vector UInt8 32} :
    (hexToBytes32 s).Returns key ↔ Hex.Pairs (stripHexPrefix s) key.toList := by
  have hdecode {bytes : List UInt8} : Checked.Returns (ExceptT.mk
      ((Hex.decodePairs (stripHexPrefix s)).run.map (Except.mapError StartError.parse))) bytes ↔
      Hex.Pairs (stripHexPrefix s) bytes := by
    rw [← Hex.decodePairs_returns, Checked.returns_mapError]
  simp only [hexToBytes32, Checked.returns_bind, hdecode]
  constructor
  · rintro ⟨bytes, hpairs, h⟩
    split at h
    · cases Checked.returns_pure.mp h
      exact hpairs
    · exact absurd h Checked.not_returns_throw
  · intro hpairs
    refine ⟨_, hpairs, ?_⟩
    rw [dif_pos key.length_toList, Checked.returns_pure]
    rfl

/-- **The bot starts where the node is.** With a private key that can be read and a positive block
time, over a node that serves its latest header, the nonce and the price for the caller, and the
state of the block of this header, the start succeeds with these values, and every program that runs
on the database of the simulations, as any simulation does, comes to what it comes to on the state
of the very block whose number and time the simulation is told. -/
theorem start_served {state : BlockState} {fromStrRadix : List Char → Except String U256}
    {keccak256 : List UInt8 → B256} {render : B256 → String} {overflowChecks : Bool}
    {callerOf : Vector UInt8 32 → Except StartError Address} {privateKeyHex : String}
    {key : Vector UInt8 32} {chainId blockTimeMs : UInt64}
    (hhead : ServesHead client block caller nonce gasPrice)
    (hstate : state.ServedBy client (quantityHex block.number.toNat))
    (hreads : ReadsHex fromStrRadix) (hkey : Hex.Pairs (stripHexPrefix privateKeyHex) key.toList)
    (hcaller : callerOf key = .ok caller) (htime : 0 < blockTimeMs) :
    ∃ started, (start client keccak256 overflowChecks callerOf privateKeyHex chainId
        blockTimeMs).Returns started ∧
      started.block = block ∧ started.bot = ⟨nonce, .new⟩ ∧ started.setup.caller = caller ∧
      started.setup.gasPrice = gasPrice ∧ started.setup.chainId = chainId ∧
      ∀ {α : Type} (p : Prog DbOp α),
        (p.run (RpcDb.handler fromStrRadix keccak256 render) started.db).1 =
          (p.run (state.handler keccak256 render) []).1 := by
  have hpoller : PollerConfig.new blockTimeMs (1 / 2) 10 =
      some ⟨blockTimeMs, 1 / 2, 10, htime, by norm_num, by norm_num, by decide⟩ :=
    dif_pos ⟨htime, ⟨by norm_num, by norm_num⟩, by decide⟩
  let setup := Trading.Setup.main keccak256 overflowChecks caller chainId gasPrice blockTimeMs
    ⟨blockTimeMs, 1 / 2, 10, htime, by norm_num, by norm_num, by decide⟩
  refine ⟨⟨block, .fresh client (quantityHex block.number.toNat), setup, ⟨nonce, .new⟩⟩, ?_, rfl,
    rfl, rfl, rfl, rfl, fun p => ?_⟩
  · rw [start, hpoller]
    simp only [Checked.returns_bind, Checked.returns_ofExcept, Checked.returns_pure,
      hexToBytes32_returns]
    exact ⟨key, hkey, caller, hcaller, block, hhead.fetchBlockContext_eq, nonce,
      hhead.fetchNonce_eq, gasPrice, hhead.fetchGasPrice_eq, rfl⟩
  · show (p.run _ (RpcDb.fresh client (quantityHex block.number.toNat))).1 = _
    rw [RpcDb.fresh_eq_after, run_after hstate hreads]

end

/-- The header of the sample node. -/
def sampleBlock : BlockContext where
  number := 16
  timestamp := 1700000000
  gasLimit := 30000000
  basefee := .ofNat 0
  coinbase := Vector.replicate 20 0

theorem sampleBlock_served (caller : Address) :
    ServesHead sampleNode sampleBlock caller 1 (.ofNat 20000000000) where
  header := ⟨_, rfl, rfl, rfl, rfl, .inr ⟨rfl, rfl⟩⟩
  coinbase := rfl
  nonce := rfl
  gasPrice := rfl

def sampleCaller (_ : Vector UInt8 32) : Except StartError Address :=
  .ok (Vector.replicate 20 0x99)

theorem start_served_sample : ∃ started,
    (start sampleNode sampleHash true sampleCaller (bytesHex (List.replicate 32 0x77)) 11155111
      12000).Returns started ∧
    started.block = sampleBlock ∧
    ((sampleQueries (sampleHash [0x60])).run (RpcDb.handler sampleRadix sampleHash fun _ => "")
      started.db).1 = pure ⟨[0x60]⟩ := by
  have hkey : Hex.Pairs (stripHexPrefix (bytesHex (List.replicate 32 0x77)))
      (Vector.replicate 32 (0x77 : UInt8)).toList := by
    rw [bytesHex, stripHexPrefix, String.toList_ofList]
    exact Hex.pairs_encode _
  have hcaller : sampleCaller (Vector.replicate 32 0x77) = .ok (Vector.replicate 20 0x99) := rfl
  have htime : (0 : UInt64) < 12000 := by decide
  obtain ⟨started, hstarted, hblock, -, -, -, -, hfork⟩ := start_served (sampleBlock_served _)
    (sampleState_served _) sampleRadix_readsHex hkey hcaller htime
  exact ⟨started, hstarted, hblock, hfork _⟩

end Driftbrake
