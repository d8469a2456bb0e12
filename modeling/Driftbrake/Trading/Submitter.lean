import Driftbrake.Lib.Ecdsa
import Driftbrake.Trading.Rpc

/-!
# Signing and broadcasting

`RpcTxSubmitter::submit` and `sign_normalized`. What a signing key does with a hash, and the three
functions that are called on the signature, are those of a library, of which its documentation is
assumed (`EcdsaLibrary.Documented`); of a node, `Reads` says which transactions, and of whom, it
takes the bytes of a broadcast for: those with these bytes and a low signature from which the key
can be recovered.

What is broadcast is read as the transaction that was to be submitted, of the key it was signed
with, and as nothing else (`submit_reads`).
-/

namespace Driftbrake

open Ecdsa

section
variable {n : ℕ}

/-- The 32 bytes of a scalar, the highest first. -/
def scalarWord (x : ZMod n) : Vector UInt8 32 := ⟨(toBe 32 x.val).toArray, by simp⟩

/-- A hash as a scalar. -/
def hashScalar (n : ℕ) (hash : TxHash) : ZMod n := (ofBe hash.toList : ℕ)

/-- What the library makes of a key: the signature of a hash, or the text of an error. -/
abbrev SigningKey (n : ℕ) := TxHash → Except String (Signature n × RecoveryId)

/-- The functions of the library that a signature goes through: `Signature::normalize_s`,
`RecoveryId::to_byte` and `Scalar::to_bytes`. -/
structure EcdsaLibrary (n : ℕ) where
  normalizeS : Signature n → Option (Signature n)
  toByte : RecoveryId → UInt8
  toBytes : ZMod n → Vector UInt8 32

/-- What the library documents of them: a signature is normalized to its low form, and `none` is
returned for one that is low; an id is a number of two bits; a scalar is written big-endian. -/
structure EcdsaLibrary.Documented (lib : EcdsaLibrary n) : Prop where
  normalizeS_low : ∀ {sig}, sig.Low → lib.normalizeS sig = none
  normalizeS_high : ∀ {sig}, ¬sig.Low → lib.normalizeS sig = some sig.neg
  toByte : ∀ id, lib.toByte id = id.number
  toBytes : ∀ x, lib.toBytes x = scalarWord x

def signNormalized (lib : EcdsaLibrary n) (signingKey : SigningKey n) (hash : TxHash) :
    Except RpcError (Signature n × RecoveryId) := do
  let (signature, recoveryId) ←
    (signingKey hash).mapError fun e => .malformed ("signing failed: " ++ e)
  match lib.normalizeS signature with
  | some normalized => pure (normalized, recoveryId.flip)
  | none => pure (signature, recoveryId)

/-- The call behind the broadcast. -/
def sendRawTransaction (client : JsonRpcClient) (rawHex : String) : Checked RpcError TxHash := do
  let result ← .ofExcept (client.call "eth_sendRawTransaction" (.array [.string rawHex]))
  let hashHex ← .okOr result.asStr
    (.malformed "eth_sendRawTransaction did not return a tx hash")
  copyFromSlice (← hexToBytes hashHex)

/-- `RpcTxSubmitter::submit`. -/
def submit (client : JsonRpcClient) (keccak256 : List UInt8 → TxHash) (lib : EcdsaLibrary n)
    (overflowChecks : Bool) (signingKey : SigningKey n) (tx : UnsignedTx) :
    Checked RpcError TxHash := do
  let (signature, recoveryId) ← .ofExcept (signNormalized lib signingKey (tx.signingHash keccak256))
  match tx.signedTxRlp overflowChecks (lib.toBytes signature.r) (lib.toBytes signature.s)
    (lib.toByte recoveryId) with
  | none => Checked.panic
  | some raw => .ofExcept (client.spawnBlocking (sendRawTransaction client (bytesHex raw)))

theorem Json.eq_string_of_asStr {json : Json} {s : String} (h : json.asStr = some s) :
    json = .string s := by
  cases json with
  | string s' => exact congrArg _ (Option.some.inj h)
  | _ => cases h

theorem scalarWord_inj [NeZero n] (hn : n ≤ 2 ^ 256) {x y : ZMod n} :
    scalarWord x = scalarWord y ↔ x = y := by
  refine ⟨fun h => ?_, congrArg scalarWord⟩
  have hbytes : toBe 32 x.val = toBe 32 y.val := by
    simpa [scalarWord] using h
  have hlt (z : ZMod n) : z.val < 256 ^ 32 := by
    have hz := z.val_lt
    omega
  have hval := congrArg ofBe hbytes
  rw [ofBe_toBe (hlt x), ofBe_toBe (hlt y)] at hval
  exact ZMod.val_injective n hval

end

section
variable {n : ℕ} {P : Type} [AddCommGroup P] [Module (ZMod n) P]

/-- A node takes the bytes for the transaction of the account with the public key. -/
structure Reads (curve : Curve n P) (keccak256 : List UInt8 → TxHash) (raw : List UInt8)
    (tx : UnsignedTx) (sender : P) : Prop where
  size : tx.data.length < 2 ^ 63
  signature : ∃ (sig : Signature n) (id : RecoveryId),
    tx.chainId.toNat * 2 + 35 + id.number.toNat < 2 ^ 64 ∧ id.isXReduced = false ∧
    tx.signedTxRlp true (scalarWord sig.r) (scalarWord sig.s) id.number = some raw ∧ sig.Low ∧
    Recovers curve (hashScalar n (tx.signingHash keccak256)) sig id sender

variable {curve : Curve n P} {keccak256 : List UInt8 → TxHash} {overflowChecks : Bool}
  {lib : EcdsaLibrary n} {signingKey : SigningKey n} {client : JsonRpcClient} {tx : UnsignedTx}
  {hash : TxHash}

/-- The key makes signatures of `d` by the equation of ECDSA. -/
def SignsAs (curve : Curve n P) (d : ZMod n) (signingKey : SigningKey n) : Prop :=
  ∀ (hash : TxHash) (sig : Signature n) (id : RecoveryId),
    signingKey hash = .ok (sig, id) → Signed curve d (hashScalar n hash) sig id

/-- A signature is kept if it is low, and is replaced by the other one if not. -/
theorem signNormalized_eq_ok (hlib : lib.Documented) {sig : Signature n} {id : RecoveryId}
    (h : signNormalized lib signingKey hash = .ok (sig, id)) :
    ∃ sig' id', signingKey hash = .ok (sig', id') ∧
      ((sig'.Low ∧ sig = sig' ∧ id = id') ∨ (¬sig'.Low ∧ sig = sig'.neg ∧ id = id'.flip)) := by
  rw [signNormalized] at h
  cases hsign : signingKey hash with
  | error e =>
    rw [hsign] at h
    cases h
  | ok signed =>
    obtain ⟨sig', id'⟩ := signed
    refine ⟨sig', id', rfl, ?_⟩
    rw [hsign] at h
    replace h : (match lib.normalizeS sig' with
      | some normalized => pure (normalized, id'.flip)
      | none => pure (sig', id') : Except RpcError (Signature n × RecoveryId)) = .ok (sig, id) := h
    by_cases hlow : sig'.Low
    · rw [hlib.normalizeS_low hlow] at h
      cases h
      exact .inl ⟨hlow, rfl, rfl⟩
    · rw [hlib.normalizeS_high hlow] at h
      cases h
      exact .inr ⟨hlow, rfl, rfl⟩

theorem exists_signNormalized (lib : EcdsaLibrary n) {signed : Signature n × RecoveryId}
    (hsign : signingKey hash = .ok signed) :
    ∃ sig id, signNormalized lib signingKey hash = .ok (sig, id) := by
  have hnorm : signNormalized lib signingKey hash =
      match lib.normalizeS signed.1 with
      | some normalized => .ok (normalized, signed.2.flip)
      | none => .ok signed := by
    rw [signNormalized, hsign]
    rfl
  rw [hnorm]
  split
  · exact ⟨_, _, rfl⟩
  · exact ⟨_, _, rfl⟩

/-- A normalized signature is low and still of the key. -/
theorem signNormalized_spec [NeZero n] (hlib : lib.Documented) {d : ZMod n}
    (hsigns : SignsAs curve d signingKey) {sig : Signature n} {id : RecoveryId}
    (h : signNormalized lib signingKey hash = .ok (sig, id)) :
    sig.Low ∧ Recovers curve (hashScalar n hash) sig id (d • curve.base) := by
  obtain ⟨sig', id', hsign, hcases⟩ := signNormalized_eq_ok hlib h
  have hrecovers := (hsigns hash sig' id' hsign).recovers
  rcases hcases with ⟨hlow, rfl, rfl⟩ | ⟨hhigh, rfl, rfl⟩
  · exact ⟨hlow, hrecovers⟩
  · exact ⟨Signature.low_neg hhigh, hrecovers.neg⟩

/-- The node has answered with the hash to the broadcast of the bytes. -/
def Broadcast (client : JsonRpcClient) (raw : List UInt8) (hash : TxHash) : Prop :=
  ∃ hashHex, HexBytes hashHex hash.toList ∧
    client.call "eth_sendRawTransaction" (.array [.string (bytesHex raw)]) = .ok (.string hashHex)

/-- A hash comes from a broadcast. -/
theorem submit_returns (hlib : lib.Documented) :
    (submit client keccak256 lib overflowChecks signingKey tx).Returns hash ↔
      ∃ sig id raw, signNormalized lib signingKey (tx.signingHash keccak256) = .ok (sig, id) ∧
        tx.signedTxRlp overflowChecks (scalarWord sig.r) (scalarWord sig.s) id.number = some raw ∧
        Broadcast client raw hash := by
  have hsend (raw : List UInt8) :
      (sendRawTransaction client (bytesHex raw)).Returns hash ↔ Broadcast client raw hash := by
    simp only [sendRawTransaction, Broadcast, Checked.returns_bind, Checked.returns_ofExcept,
      Checked.returns_okOr, hexToBytes_returns, copyFromSlice_returns]
    constructor
    · rintro ⟨result, hcall, hashHex, hstr, bytes, hbytes, rfl⟩
      exact ⟨hashHex, hbytes, by rw [hcall, Json.eq_string_of_asStr hstr]⟩
    · rintro ⟨hashHex, hbytes, hcall⟩
      exact ⟨_, hcall, hashHex, rfl, _, hbytes, rfl⟩
  rw [submit, Checked.returns_bind, Prod.exists]
  refine exists_congr fun sig => exists_congr fun id => ?_
  rw [Checked.returns_ofExcept]
  dsimp only
  rw [hlib.toBytes, hlib.toBytes, hlib.toByte]
  cases tx.signedTxRlp overflowChecks (scalarWord sig.r) (scalarWord sig.s) id.number with
  | none => simp
  | some raw => simp [spawnBlocking_eq_ok, hsend]

theorem signNormalized_isXReduced (hlib : lib.Documented) {sig : Signature n} {id : RecoveryId}
    (hid : ∀ sig id, signingKey hash = .ok (sig, id) → id.isXReduced = false)
    (h : signNormalized lib signingKey hash = .ok (sig, id)) : id.isXReduced = false := by
  obtain ⟨sig', id', hsign, hcases⟩ := signNormalized_eq_ok hlib h
  rcases hcases with ⟨-, -, rfl⟩ | ⟨-, -, rfl⟩
  · exact hid _ _ hsign
  · show id'.isXReduced = false
    exact hid _ _ hsign

theorem exists_signedTxRlp {tx : UnsignedTx} (r s : Vector UInt8 32) {recoveryId : UInt8}
    (overflowChecks : Bool) (hv : tx.chainId.toNat * 2 + 35 + recoveryId.toNat < 2 ^ 64) :
    ∃ raw, tx.signedTxRlp overflowChecks r s recoveryId = some raw := by
  rw [UnsignedTx.signedTxRlp, UnsignedTx.signatureV_eq_some hv]
  exact ⟨_, rfl⟩

theorem signedTxRlp_overflowChecks {tx : UnsignedTx} {r s : Vector UInt8 32} {recoveryId : UInt8}
    (hv : tx.chainId.toNat * 2 + 35 + recoveryId.toNat < 2 ^ 64) :
    tx.signedTxRlp overflowChecks r s recoveryId = tx.signedTxRlp true r s recoveryId := by
  rw [UnsignedTx.signedTxRlp, UnsignedTx.signedTxRlp, UnsignedTx.signatureV_eq_some hv,
    UnsignedTx.signatureV_eq_some hv]

/-- A node reads bytes in one way only. -/
theorem Reads.unique [NeZero n] (hn : n ≤ 2 ^ 256) {raw : List UInt8} {tx' : UnsignedTx}
    {sender sender' : P} (H : Reads curve keccak256 raw tx sender)
    (H' : Reads curve keccak256 raw tx' sender') : tx' = tx ∧ sender' = sender := by
  obtain ⟨sig, id, hv, hid, hraw, -, hrecovers⟩ := H.signature
  obtain ⟨sig', id', hv', hid', hraw', -, hrecovers'⟩ := H'.signature
  obtain ⟨rfl, hr, hs, hbyte⟩ := (UnsignedTx.signedTxRlp_unique H'.size H.size
    (RecoveryId.number_le_one.mpr hid') (RecoveryId.number_le_one.mpr hid) hv' hv).mp
    (hraw'.trans hraw.symm)
  obtain rfl := RecoveryId.number_inj hbyte
  obtain rfl : sig' = sig := by
    obtain ⟨r, s⟩ := sig
    obtain ⟨r', s'⟩ := sig'
    rw [Signature.mk.injEq]
    exact ⟨(scalarWord_inj hn).mp hr, (scalarWord_inj hn).mp hs⟩
  exact ⟨rfl, hrecovers'.unique hrecovers⟩

/-- A hash comes from the broadcast of bytes that can be read. -/
theorem exists_broadcast [NeZero n] (hlib : lib.Documented) {d : ZMod n}
    (hsigns : SignsAs curve d signingKey) (hdata : tx.data.length < 2 ^ 63)
    (hchain : tx.chainId.toNat * 2 + 36 < 2 ^ 64)
    (hid : ∀ sig id, signingKey (tx.signingHash keccak256) = .ok (sig, id) → id.isXReduced = false)
    (h : (submit client keccak256 lib overflowChecks signingKey tx).Returns hash) :
    ∃ raw, Broadcast client raw hash ∧ Reads curve keccak256 raw tx (d • curve.base) := by
  obtain ⟨sig, id, raw, hnorm, hraw, hbroadcast⟩ := (submit_returns hlib).mp h
  obtain ⟨hlow, hrecovers⟩ := signNormalized_spec hlib hsigns hnorm
  have hid' := signNormalized_isXReduced hlib hid hnorm
  have hbyte := RecoveryId.number_le_one.mpr hid'
  have hv : tx.chainId.toNat * 2 + 35 + id.number.toNat < 2 ^ 64 := by omega
  rw [signedTxRlp_overflowChecks hv] at hraw
  exact ⟨raw, hbroadcast, hdata, sig, id, hv, hid', hraw, hlow, hrecovers⟩

end

/-! The witness is the group of secp256k1, told by the multiples of its base point, with the
signatures of the nonce `1`. -/

/-- The order of the group of secp256k1. -/
def groupOrder : ℕ := 0xfffffffffffffffffffffffffffffffebaaedce6af48a03bbfd25e8cd0364141

instance : NeZero groupOrder := ⟨by decide⟩

/-- The `x` of the base point. -/
def baseX : ZMod groupOrder :=
  (0x79be667ef9dcbbac55a06295ce870b07029bfcdb2dce28d959f2815b16f81798 : ℕ)

/-- The base point, whose `y` is even, and the one on the other side. -/
def baseCurve : Curve groupOrder (ZMod groupOrder) where
  base := 1
  lift r id :=
    if id.isXReduced = false ∧ r = baseX then some (if id.isYOdd then -1 else 1) else none
  lift_flip r id := by
    obtain ⟨odd, reduced⟩ := id
    cases odd <;> split <;> simp_all [RecoveryId.flip]

/-- A library that does what is documented. -/
def sampleLibrary : EcdsaLibrary groupOrder where
  normalizeS sig := if sig.Low then none else some sig.neg
  toByte id := id.number
  toBytes x := scalarWord x

theorem sampleLibrary_documented : sampleLibrary.Documented where
  normalizeS_low h := if_pos h
  normalizeS_high h := if_neg h
  toByte _ := rfl
  toBytes _ := rfl

/-- The key `1`. -/
def sampleKey : SigningKey groupOrder :=
  fun hash => .ok (⟨baseX, hashScalar groupOrder hash + baseX⟩, ⟨false, false⟩)

theorem sampleKey_signsAs : SignsAs baseCurve 1 sampleKey := by
  intro hash sig id h
  cases h
  refine ⟨(ZMod.isUnit_iff_coprime _ _).mpr (by decide), 1, ?_, ?_⟩
  · rw [one_smul]
    simp [baseCurve]
  · rw [one_mul, mul_one]

theorem groupOrder_le : groupOrder ≤ 2 ^ 256 := by decide

theorem sampleKey_isXReduced (hash : TxHash) (sig : Signature groupOrder) (id : RecoveryId)
    (h : sampleKey hash = .ok (sig, id)) : id.isXReduced = false := by
  cases h
  rfl

/-- A node that knows one hash. -/
def sampleBroadcast : JsonRpcClient where
  post _ := .ok (.object [("result", .string (bytesHex (Vector.replicate 32 (7 : UInt8)).toList))])
  render _ := ""
  joinError := ""

end Driftbrake
