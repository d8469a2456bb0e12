import Driftbrake.Lib.Hex
import Driftbrake.Trading.Decoder

/-!
# Receipts over JSON-RPC

`RpcReceiptSource::get_receipt` and what it is made of. `DescribesReceipt` says in terms of the text
of a response which receipt and logs it describes; `get_receipt` returns these, and any other
response is an error (`getReceipt_returns`), panics included, for the parsing runs in a task of its
own. What a node writes of a receipt is read back (`getReceipt_roundTrip`).
-/

namespace Driftbrake

/-- `serde_json::Value`. -/
inductive Json
  | null
  | bool (b : Bool)
  | number (text : String)
  | string (s : String)
  | array (items : List Json)
  | object (fields : List (String × Json))

namespace Json

def get (name : String) : Json → Option Json
  | .object fields => fields.lookup name
  | _ => none

def asStr : Json → Option String
  | .string s => some s
  | _ => none

def asArray : Json → Option (List Json)
  | .array items => some items
  | _ => none

def isNull : Json → Bool
  | .null => true
  | _ => false

/-- `.get(name).and_then(Value::as_str)`. -/
def strField (self : Json) (name : String) : Option String := (self.get name).bind asStr

/-- `.get(name).and_then(Value::as_array).cloned().unwrap_or_default()`. -/
def itemsOf (self : Json) (name : String) : List Json := ((self.get name).bind asArray).getD []

end Json

inductive RpcError
  | transport (text : String)
  | rpc (text : String)
  | malformed (text : String)
deriving DecidableEq, Repr

/-- The texts of the parse errors of the standard library. -/
def Hex.ParseError.toText : Hex.ParseError → String
  | .empty => "cannot parse integer from empty string"
  | .invalidDigit => "invalid digit found in string"
  | .posOverflow => "number too large to fit in target type"

/-! ## Hexadecimal fields -/

/-- `s.strip_prefix("0x").unwrap_or(s)`. -/
def stripHexPrefix (s : String) : List Char :=
  match s.toList with
  | '0' :: 'x' :: cs => cs
  | cs => cs

/-- `.map_err(|e| RpcError::Malformed(e.to_string()))`. -/
def malformed {α : Type} (x : Checked Hex.ParseError α) : Checked RpcError α :=
  ExceptT.mk (x.run.map (Except.mapError fun e => .malformed e.toText))

def hexToBytes (s : String) : Checked RpcError (List UInt8) :=
  let s := stripHexPrefix s
  let s := if Hex.byteLen s % 2 = 1 then '0' :: s else s
  malformed (Hex.decodePairs s)

def hexToU64 (s : String) : Checked RpcError UInt64 := do
  let n ← malformed (.ofExcept (Hex.fromStrRadix (2 ^ 64) (stripHexPrefix s)))
  pure (.ofNat n)

def hexToU128 (s : String) : Checked RpcError U128 := do
  let n ← malformed (.ofExcept (Hex.fromStrRadix (2 ^ 128) (stripHexPrefix s)))
  pure (.ofNat n)

/-- `"0x"` and the bytes in hexadecimal, `address_hex` and the format of the requests. -/
def bytesHex (bytes : List UInt8) : String := String.ofList ('0' :: 'x' :: Hex.encode bytes)

/-- `copy_from_slice` into an array of 32 bytes, which panics at any other length. -/
def copyFromSlice (bytes : List UInt8) : Checked RpcError TxHash :=
  if h : bytes.length = 32 then pure ⟨bytes.toArray, by simpa using h⟩
  else Checked.panic

/-! ## The client -/

/-- A client with the parts of it that are libraries: the exchange of JSON documents over HTTP and
the texts of two of its errors. -/
structure JsonRpcClient where
  /-- The response to a body, or an error of the transport or of its JSON. -/
  post : Json → Except RpcError Json
  /-- `Value::to_string`. -/
  render : Json → String
  /-- The text of a task that has panicked. -/
  joinError : String

namespace JsonRpcClient

variable (self : JsonRpcClient)

def call (method : String) (params : Json) : Except RpcError Json := do
  let body := Json.object [("jsonrpc", .string "2.0"), ("id", .number "1"),
    ("method", .string method), ("params", params)]
  let response ← self.post body
  match response.get "error" with
  | some error => throw (.rpc (self.render error))
  | none =>
    match response.get "result" with
    | some result => pure result
    | none => throw (.malformed "response had neither result nor error")

/-- `tokio::task::spawn_blocking` and the `map_err` behind it. -/
def spawnBlocking {α : Type} (task : Checked RpcError α) : Except RpcError α :=
  task.run.getD (.error (.transport self.joinError))

end JsonRpcClient

/-! ## Receipts -/

def parseTopic (t : Json) : Checked RpcError TxHash := do
  copyFromSlice (← hexToBytes (t.asStr.getD "0x"))

def parseLog (log : Json) : Checked RpcError Log := do
  let address ← hexToBytes ((log.strField "address").getD "0x")
  let topics ← (log.itemsOf "topics").mapM parseTopic
  let data ← hexToBytes ((log.strField "data").getD "0x")
  pure { address, topics, data }

def parseReceiptResponse (client : JsonRpcClient) (hashHex : String) (txHash : TxHash) :
    Checked RpcError (Option (TxReceipt × List Log)) := do
  let result ← .ofExcept
    (client.call "eth_getTransactionReceipt" (.array [.string hashHex]))
  if result.isNull then return none
  let statusHex ← .okOr (result.strField "status") (.malformed "receipt missing status")
  let status := if (← hexToU64 statusHex) = 1 then TxStatus.confirmed else .reverted
  let blockNumber ← hexToU64
    (← .okOr (result.strField "blockNumber") (.malformed "receipt missing blockNumber"))
  let gasUsed ← hexToU64
    (← .okOr (result.strField "gasUsed") (.malformed "receipt missing gasUsed"))
  let effectiveGasPrice ← hexToU128 ((result.strField "effectiveGasPrice").getD "0x0")
  let receipt := { txHash, blockNumber, status, gasUsed, effectiveGasPrice }
  let logs ← (result.itemsOf "logs").mapM parseLog
  pure (some (receipt, logs))

/-- `RpcReceiptSource::get_receipt`. -/
def getReceipt (client : JsonRpcClient) (txHash : TxHash) :
    Except RpcError (Option (TxReceipt × List Log)) :=
  client.spawnBlocking (parseReceiptResponse client (bytesHex txHash.toList) txHash)

/-! ## What the fields denote -/

/-- The text denotes the number. -/
def HexNumber (s : String) (n : Nat) : Prop := Hex.Numeral (stripHexPrefix s) n

/-- The text denotes the bytes; a digit may be missing in front. -/
def HexBytes (s : String) (bytes : List UInt8) : Prop :=
  Hex.Pairs (stripHexPrefix s) bytes ∨ Hex.Pairs ('0' :: stripHexPrefix s) bytes

theorem malformed_returns {α : Type} {x : Checked Hex.ParseError α} {a : α} :
    (malformed x).Returns a ↔ x.Returns a :=
  Checked.returns_mapError

section
variable {s : String}

theorem hexToBytes_returns {bytes : List UInt8} :
    (hexToBytes s).Returns bytes ↔ HexBytes s bytes := by
  rw [hexToBytes, malformed_returns, Hex.decodePairs_returns, HexBytes]
  -- the length decides which of the two texts is a sequence of pairs
  have heven (h : Hex.Pairs (stripHexPrefix s) bytes) :
      Hex.byteLen (stripHexPrefix s) = 2 * bytes.length := Hex.byteLen_of_pairs h
  have hodd (h : Hex.Pairs ('0' :: stripHexPrefix s) bytes) :
      1 + Hex.byteLen (stripHexPrefix s) = 2 * bytes.length := Hex.byteLen_of_pairs h
  split
  · rename_i hlen
    refine ⟨.inr, fun h => h.resolve_left fun h => ?_⟩
    have := heven h
    omega
  · rename_i hlen
    refine ⟨.inl, fun h => h.resolve_right fun h => ?_⟩
    have := hodd h
    omega

theorem hexToU64_returns {n : UInt64} : (hexToU64 s).Returns n ↔ HexNumber s n.toNat := by
  simp only [hexToU64, Checked.returns_bind, malformed_returns, Checked.returns_ofExcept,
    Checked.returns_pure, Hex.fromStrRadix_eq_ok (Nat.two_pow_pos 64)]
  constructor
  · rintro ⟨n, ⟨hn, hlt⟩, rfl⟩
    rwa [HexNumber, UInt64.toNat_ofNat_of_lt' hlt]
  · intro hn
    exact ⟨n.toNat, ⟨hn, n.toNat_lt⟩, UInt64.ofNat_toNat⟩

theorem hexToU128_returns {n : U128} : (hexToU128 s).Returns n ↔ HexNumber s n.toNat := by
  simp only [hexToU128, Checked.returns_bind, malformed_returns, Checked.returns_ofExcept,
    Checked.returns_pure, Hex.fromStrRadix_eq_ok (Nat.two_pow_pos 128)]
  constructor
  · rintro ⟨n, ⟨hn, hlt⟩, rfl⟩
    rwa [HexNumber, U128.toNat, U128.ofNat, BitVec.toNat_ofNat, Nat.mod_eq_of_lt hlt]
  · intro hn
    refine ⟨n.toNat, ⟨hn, n.toBitVec.isLt⟩, ?_⟩
    rw [U128.ofNat, U128.toNat, BitVec.ofNat_toNat, BitVec.setWidth_eq]

end

theorem copyFromSlice_returns {bytes : List UInt8} {hash : TxHash} :
    (copyFromSlice bytes).Returns hash ↔ bytes = hash.toList := by
  rw [copyFromSlice]
  split
  · rename_i hlen
    rw [Checked.returns_pure]
    constructor
    · rintro rfl
      rfl
    · rintro rfl
      rfl
  · rename_i hlen
    refine ⟨fun h => absurd h Checked.not_returns_panic, ?_⟩
    rintro rfl
    exact absurd hash.length_toList hlen

/-! ## What a response describes -/

/-- A log of a response, whose missing fields stand for no bytes. -/
structure DescribesLog (json : Json) (log : Log) : Prop where
  address : HexBytes ((json.strField "address").getD "0x") log.address
  topics : List.Forall₂ (fun (t : Json) topic => HexBytes (t.asStr.getD "0x") topic.toList)
    (json.itemsOf "topics") log.topics
  data : HexBytes ((json.strField "data").getD "0x") log.data

/-- The receipt and the logs of a response. -/
structure DescribesReceipt (json : Json) (receipt : TxReceipt) (logs : List Log) : Prop where
  status : ∃ s n, json.strField "status" = some s ∧ HexNumber s n ∧ n < 2 ^ 64 ∧
    receipt.status = if n = 1 then .confirmed else .reverted
  blockNumber : ∃ s, json.strField "blockNumber" = some s ∧ HexNumber s receipt.blockNumber.toNat
  gasUsed : ∃ s, json.strField "gasUsed" = some s ∧ HexNumber s receipt.gasUsed.toNat
  effectiveGasPrice :
    HexNumber ((json.strField "effectiveGasPrice").getD "0x0") receipt.effectiveGasPrice.toNat
  logs : List.Forall₂ DescribesLog (json.itemsOf "logs") logs

theorem parseTopic_returns {t : Json} {topic : TxHash} :
    (parseTopic t).Returns topic ↔ HexBytes (t.asStr.getD "0x") topic.toList := by
  simp only [parseTopic, Checked.returns_bind, hexToBytes_returns, copyFromSlice_returns]
  simp

theorem parseLog_returns {json : Json} {log : Log} :
    (parseLog json).Returns log ↔ DescribesLog json log := by
  simp only [parseLog, Checked.returns_bind, hexToBytes_returns, Checked.returns_mapM,
    parseTopic_returns, Checked.returns_pure]
  constructor
  · rintro ⟨address, haddress, topics, htopics, data, hdata, rfl⟩
    exact ⟨haddress, htopics, hdata⟩
  · rintro ⟨haddress, htopics, hdata⟩
    exact ⟨_, haddress, _, htopics, _, hdata, rfl⟩

section
variable {client : JsonRpcClient} {hashHex : String} {txHash : TxHash} {receipt : TxReceipt}
  {logs : List Log}

/-- The response of a node for a transaction. -/
def receiptResponse (client : JsonRpcClient) (hashHex : String) : Except RpcError Json :=
  client.call "eth_getTransactionReceipt" (.array [.string hashHex])

theorem parseReceiptResponse_returns :
    (parseReceiptResponse client hashHex txHash).Returns (some (receipt, logs)) ↔
      ∃ result, receiptResponse client hashHex = .ok result ∧ result.isNull = false ∧
        receipt.txHash = txHash ∧ DescribesReceipt result receipt logs := by
  simp only [parseReceiptResponse, Checked.returns_bind, Checked.returns_ofExcept]
  refine exists_congr fun result => and_congr_right fun _ => ?_
  cases result.isNull with
  | true => simp
  | false =>
    simp only [Bool.false_eq_true, if_false, Checked.returns_bind, Checked.returns_okOr,
      hexToU64_returns, hexToU128_returns, Checked.returns_mapM, parseLog_returns,
      Checked.returns_pure]
    have hone (n : UInt64) : n = 1 ↔ n.toNat = 1 := UInt64.toNat_inj.symm
    constructor
    · rintro ⟨s, hs, n, hn, sb, hsb, b, hb, sg, hsg, g, hg, price, hprice, ls, hlogs, heq⟩
      cases heq
      refine ⟨trivial, rfl, ⟨s, n.toNat, hs, hn, n.toNat_lt, ?_⟩, ⟨sb, hsb, hb⟩, ⟨sg, hsg, hg⟩,
        hprice, hlogs⟩
      simp only [hone]
    · rintro ⟨-, htx, ⟨s, n, hs, hn, hlt, hstatus⟩, ⟨sb, hsb, hb⟩, ⟨sg, hsg, hg⟩, hprice, hlogs⟩
      have hnat : (UInt64.ofNat n).toNat = n := UInt64.toNat_ofNat_of_lt' hlt
      refine ⟨s, hs, .ofNat n, by rwa [hnat], sb, hsb, _, hb, sg, hsg, _, hg, _, hprice, _,
        hlogs, ?_⟩
      obtain ⟨hash, block, status, gas, price⟩ := receipt
      dsimp only at htx hstatus
      simp only [hone, hnat]
      rw [htx, hstatus]

theorem parseReceiptResponse_returns_none :
    (parseReceiptResponse client hashHex txHash).Returns none ↔
      ∃ result, receiptResponse client hashHex = .ok result ∧ result.isNull = true := by
  simp only [parseReceiptResponse, Checked.returns_bind, Checked.returns_ofExcept]
  refine exists_congr fun result => and_congr_right fun _ => ?_
  cases result.isNull with
  | true => simp
  | false =>
    simp only [Bool.false_eq_true, if_false, Checked.returns_bind, Checked.returns_pure]
    simp

theorem spawnBlocking_eq_ok {α : Type} {task : Checked RpcError α} {a : α} :
    client.spawnBlocking task = .ok a ↔ task.Returns a := by
  rw [JsonRpcClient.spawnBlocking, Checked.Returns]
  cases task.run with
  | none => simp
  | some r => simp

theorem getReceipt_eq_some :
    getReceipt client txHash = .ok (some (receipt, logs)) ↔
      ∃ result, receiptResponse client (bytesHex txHash.toList) = .ok result ∧
        result.isNull = false ∧ receipt.txHash = txHash ∧ DescribesReceipt result receipt logs := by
  rw [getReceipt, spawnBlocking_eq_ok, parseReceiptResponse_returns]

/-- **A receipt is what the response describes.** `get_receipt` returns a receipt and its logs
exactly if the node has answered with a document that describes them; they carry the hash that was
asked for, and every other document is an error or no receipt, and never a panic. -/
theorem getReceipt_returns :
    (getReceipt client txHash = .ok (some (receipt, logs)) ↔
      ∃ result, receiptResponse client (bytesHex txHash.toList) = .ok result ∧
        result.isNull = false ∧ receipt.txHash = txHash ∧ DescribesReceipt result receipt logs) ∧
    (getReceipt client txHash = .ok none ↔
      ∃ result, receiptResponse client (bytesHex txHash.toList) = .ok result ∧
        result.isNull = true) := by
  refine ⟨getReceipt_eq_some, ?_⟩
  rw [getReceipt, spawnBlocking_eq_ok, parseReceiptResponse_returns_none]

end

/-! ## What a node writes -/

/-- A quantity, without leading zeros. -/
def quantityHex (n : Nat) : String := String.ofList ('0' :: 'x' :: Nat.toDigits 16 n)

theorem hexNumber_quantityHex (n : Nat) : HexNumber (quantityHex n) n := by
  rw [HexNumber, quantityHex, stripHexPrefix, String.toList_ofList]
  exact Hex.numeral_toDigits n

theorem hexBytes_bytesHex (bytes : List UInt8) : HexBytes (bytesHex bytes) bytes := by
  rw [HexBytes, bytesHex, stripHexPrefix, String.toList_ofList]
  exact .inl (Hex.pairs_encode bytes)

def logJson (log : Log) : Json :=
  .object [("address", .string (bytesHex log.address)),
    ("topics", .array (log.topics.map fun topic => .string (bytesHex topic.toList))),
    ("data", .string (bytesHex log.data))]

/-- A receipt with its logs, in front of other fields. -/
def receiptJson (receipt : TxReceipt) (logs : List Log) (others : List (String × Json)) : Json :=
  .object ([("status", .string (quantityHex (if receipt.status = .confirmed then 1 else 0))),
    ("blockNumber", .string (quantityHex receipt.blockNumber.toNat)),
    ("gasUsed", .string (quantityHex receipt.gasUsed.toNat)),
    ("effectiveGasPrice", .string (quantityHex receipt.effectiveGasPrice.toNat)),
    ("logs", .array (logs.map logJson))] ++ others)

theorem describes_logJson (log : Log) : DescribesLog (logJson log) log where
  address := hexBytes_bytesHex _
  topics := by
    show List.Forall₂ _ (log.topics.map _) log.topics
    rw [List.forall₂_map_left_iff, List.forall₂_same]
    exact fun topic _ => hexBytes_bytesHex _
  data := hexBytes_bytesHex _

theorem describes_receiptJson (receipt : TxReceipt) (logs : List Log)
    (others : List (String × Json)) :
    DescribesReceipt (receiptJson receipt logs others) receipt logs where
  status := by
    refine ⟨_, _, rfl, hexNumber_quantityHex _, ?_, ?_⟩
    · split
      · decide
      · decide
    · cases receipt.status with
      | confirmed => rfl
      | reverted => rfl
  blockNumber := ⟨_, rfl, hexNumber_quantityHex _⟩
  gasUsed := ⟨_, rfl, hexNumber_quantityHex _⟩
  effectiveGasPrice := hexNumber_quantityHex _
  logs := by
    show List.Forall₂ _ (logs.map logJson) logs
    rw [List.forall₂_map_left_iff, List.forall₂_same]
    exact fun log _ => describes_logJson log

/-- The client is connected to a node with the receipts of `ledger`. -/
def Answers (client : JsonRpcClient) (ledger : TxHash → Option (TxReceipt × List Log)) : Prop :=
  ∀ hash : TxHash, match ledger hash with
    | none => receiptResponse client (bytesHex hash.toList) = .ok .null
    | some (receipt, logs) => receipt.txHash = hash ∧ ∃ others,
      receiptResponse client (bytesHex hash.toList) = .ok (receiptJson receipt logs others)

/-- **What a node has recorded is what the poller is told**, for every receipt with any logs. -/
theorem getReceipt_roundTrip {client : JsonRpcClient}
    {ledger : TxHash → Option (TxReceipt × List Log)} (H : Answers client ledger) (hash : TxHash) :
    getReceipt client hash = .ok (ledger hash) := by
  have hanswer := H hash
  rw [getReceipt, spawnBlocking_eq_ok]
  cases hledger : ledger hash with
  | none =>
    rw [hledger] at hanswer
    exact parseReceiptResponse_returns_none.mpr ⟨_, hanswer, rfl⟩
  | some found =>
    obtain ⟨receipt, logs⟩ := found
    rw [hledger] at hanswer
    obtain ⟨hhash, others, hresponse⟩ := hanswer
    exact parseReceiptResponse_returns.mpr
      ⟨_, hresponse, rfl, hhash, describes_receiptJson receipt logs others⟩

/-- A node that answers every request with the same receipt. -/
def sampleClient : JsonRpcClient where
  post _ := .ok (.object [("result", receiptJson Trading.sampleReceipt [⟨[0xaa], [], [0x00]⟩] [])])
  render _ := ""
  joinError := ""

theorem getReceipt_roundTrip_sample :
    getReceipt sampleClient (Vector.replicate 32 7) =
      .ok (some ({ Trading.sampleReceipt with txHash := Vector.replicate 32 7 },
        [⟨[0xaa], [], [0x00]⟩])) := by
  have hanswers : Answers sampleClient fun hash =>
      some ({ Trading.sampleReceipt with txHash := hash }, [⟨[0xaa], [], [0x00]⟩]) :=
    fun hash => ⟨rfl, [], rfl⟩
  exact getReceipt_roundTrip hanswers _

end Driftbrake
