import Driftbrake.Trading.Rlp

/-!
# Legacy transactions

`UnsignedTx` of the `toy-arbitrage` example, the payload that is signed (EIP-155) and the bytes that
are broadcast. Both are encodings of lists of nine fields. The payload determines the transaction,
its chain included (`signingHash_binding`), and the bytes determine the transaction and its
signature (`signedTxRlp_unique`).
-/

namespace Driftbrake

/-- `[u8; 20]`. -/
abbrev Address := Vector UInt8 20

structure UnsignedTx where
  nonce : UInt64
  gasPrice : U128
  gasLimit : UInt64
  /-- The field `to`. -/
  toAddr : Address
  value : U128
  data : List UInt8
  chainId : UInt64
deriving DecidableEq, Repr

/-- `x as u128` for a `u64`. -/
def U128.ofU64 (x : UInt64) : U128 := .ofNat x.toNat

theorem U128.ofU64_inj {x y : UInt64} : U128.ofU64 x = U128.ofU64 y ↔ x = y := by
  refine ⟨fun h => ?_, congrArg U128.ofU64⟩
  have htoNat (z : UInt64) : (U128.ofU64 z).toNat = z.toNat := by
    have hz := z.toNat_lt
    rw [U128.ofU64, U128.toNat, U128.ofNat, BitVec.toNat_ofNat, Nat.mod_eq_of_lt (by omega)]
  rw [← UInt64.toNat_inj, ← htoNat, h, htoNat]

namespace UnsignedTx

open Rlp (Item encode encodeAll)

/-- The fields that both lists start with. -/
def fields (tx : UnsignedTx) : List Item :=
  [.uint (.ofU64 tx.nonce), .uint tx.gasPrice, .uint (.ofU64 tx.gasLimit), .address tx.toAddr,
    .uint tx.value, .bytes tx.data]

def signingItems (tx : UnsignedTx) : List Item :=
  tx.fields ++ [.uint (.ofU64 tx.chainId), .uint (.ofNat 0), .uint (.ofNat 0)]

def signingPayload (tx : UnsignedTx) : List UInt8 := encode (.list tx.signingItems)

def signingHash (keccak256 : List UInt8 → TxHash) (tx : UnsignedTx) : TxHash :=
  keccak256 tx.signingPayload

/-- `tx.chain_id * 2 + 35 + recovery_id as u64`; `none` is a panic. -/
def signatureV (overflowChecks : Bool) (tx : UnsignedTx) (recoveryId : UInt8) : Option UInt64 :=
  let v := tx.chainId.toNat * 2 + 35 + recoveryId.toNat
  if overflowChecks && decide (2 ^ 64 ≤ v) then none else some (.ofNat v)

def signedItems (tx : UnsignedTx) (v : UInt64) (r s : Vector UInt8 32) : List Item :=
  tx.fields ++ [.uint (.ofU64 v), .bigUintBytes r.toList, .bigUintBytes s.toList]

def signedTxRlp (overflowChecks : Bool) (tx : UnsignedTx) (r s : Vector UInt8 32)
    (recoveryId : UInt8) : Option (List UInt8) := do
  let v ← tx.signatureV overflowChecks recoveryId
  some (encode (.list (tx.signedItems v r s)))

/-! ## The lists of fields -/

variable {tx tx' : UnsignedTx} {v v' : UInt64} {r s r' s' : Vector UInt8 32}

theorem fields_append_inj {is is' : List Item} :
    tx.fields ++ is = tx'.fields ++ is' ↔
      (tx.nonce = tx'.nonce ∧ tx.gasPrice = tx'.gasPrice ∧ tx.gasLimit = tx'.gasLimit ∧
        tx.toAddr = tx'.toAddr ∧ tx.value = tx'.value ∧ tx.data = tx'.data) ∧ is = is' := by
  simp only [fields, List.cons_append, List.nil_append, List.cons.injEq, Item.uint_inj,
    Item.address_inj, U128.ofU64_inj, Item.bytes.injEq, and_assoc]

theorem signingItems_inj : tx.signingItems = tx'.signingItems ↔ tx = tx' := by
  rw [signingItems, signingItems, fields_append_inj]
  simp only [List.cons.injEq, Item.uint_inj, U128.ofU64_inj, and_true]
  obtain ⟨nonce, gasPrice, gasLimit, toAddr, value, data, chainId⟩ := tx
  obtain ⟨nonce', gasPrice', gasLimit', toAddr', value', data', chainId'⟩ := tx'
  simp only [UnsignedTx.mk.injEq, and_assoc]

theorem bigUintBytes_vector_inj {n : Nat} {a b : Vector UInt8 n} :
    Item.bigUintBytes a.toList = Item.bigUintBytes b.toList ↔ a = b := by
  rw [Item.bigUintBytes_inj (by rw [Vector.length_toList, Vector.length_toList])]
  exact Vector.toList_inj

theorem signedItems_inj :
    tx.signedItems v r s = tx'.signedItems v' r' s' ↔
      { tx with chainId := 0 } = { tx' with chainId := 0 } ∧ v = v' ∧ r = r' ∧ s = s' := by
  rw [signedItems, signedItems, fields_append_inj]
  simp only [List.cons.injEq, Item.uint_inj, U128.ofU64_inj, bigUintBytes_vector_inj, and_true,
    UnsignedTx.mk.injEq]

/-! ## Their encodings -/

theorem length_encodeAll_fields_le (tx : UnsignedTx) :
    (encodeAll tx.fields).length ≤ tx.data.length + 138 := by
  have hnonce := Rlp.length_encode_uint_le (.ofU64 tx.nonce)
  have hgasPrice := Rlp.length_encode_uint_le tx.gasPrice
  have hgasLimit := Rlp.length_encode_uint_le (.ofU64 tx.gasLimit)
  have hto := Rlp.length_encode_bytes_le tx.toAddr.toList
  have hvalue := Rlp.length_encode_uint_le tx.value
  have hdata := Rlp.length_encode_bytes_le tx.data
  rw [Vector.length_toList] at hto
  simp only [fields, encodeAll, List.length_append, List.length_nil, Item.address]
  omega

theorem fits_fields_append (hdata : tx.data.length < 2 ^ 63) {is : List Item}
    (his : (encodeAll is).length ≤ 107) : (Item.list (tx.fields ++ is)).Fits := by
  have hfields := length_encodeAll_fields_le tx
  have hlist := Rlp.length_encode_list_le (tx.fields ++ is)
  rw [Rlp.encodeAll_append, List.length_append] at hlist
  rw [Item.Fits]
  omega

theorem fits_signingItems (hdata : tx.data.length < 2 ^ 63) :
    (Item.list tx.signingItems).Fits := by
  have hchain := Rlp.length_encode_uint_le (.ofU64 tx.chainId)
  have hzero := Rlp.length_encode_uint_le (.ofNat 0)
  apply fits_fields_append hdata
  simp only [encodeAll, List.length_append, List.length_nil]
  omega

theorem fits_signedItems (hdata : tx.data.length < 2 ^ 63) :
    (Item.list (tx.signedItems v r s)).Fits := by
  have hv := Rlp.length_encode_uint_le (.ofU64 v)
  have hr := Rlp.length_encode_bigUintBytes_le r.toList
  have hs := Rlp.length_encode_bigUintBytes_le s.toList
  rw [Vector.length_toList] at hr hs
  apply fits_fields_append hdata
  simp only [encodeAll, List.length_append, List.length_nil]
  omega

/-- The two kinds of list agree only where there is no signature. -/
theorem signedItems_eq_signingItems (h : tx.signedItems v r s = tx'.signingItems) :
    r = Vector.replicate 32 0 ∧ s = Vector.replicate 32 0 := by
  rw [signedItems, signingItems, fields_append_inj] at h
  obtain ⟨-, hr, hs, -⟩ : v = tx'.chainId ∧ Item.bigUintBytes r.toList = .uint (.ofNat 0) ∧
      Item.bigUintBytes s.toList = .uint (.ofNat 0) ∧ True := by
    simpa only [List.cons.injEq, Item.uint_inj, U128.ofU64_inj, and_true] using h.2
  have hzero : Item.uint (.ofNat 0) = .bigUintBytes (Vector.replicate 32 0).toList := by rfl
  rw [hzero] at hr hs
  exact ⟨bigUintBytes_vector_inj.mp hr, bigUintBytes_vector_inj.mp hs⟩

/-- **The signed payload binds the transaction**, with the chain it is for, and it is never what is
broadcast of a signed transaction. A `Vec` has less than `2 ^ 63` bytes. -/
theorem signingPayload_binding (hdata : tx.data.length < 2 ^ 63)
    (hdata' : tx'.data.length < 2 ^ 63) :
    (tx.signingPayload = tx'.signingPayload ↔ tx = tx') ∧
    ∀ overflowChecks r s recoveryId,
      tx.signedTxRlp overflowChecks r s recoveryId = some tx'.signingPayload →
      r = Vector.replicate 32 0 ∧ s = Vector.replicate 32 0 := by
  constructor
  · refine ⟨fun h => ?_, congrArg signingPayload⟩
    have hitems := Rlp.encode_prefixCode.inj (fits_signingItems hdata) (fits_signingItems hdata') h
    exact signingItems_inj.mp (Item.list.inj hitems)
  · intro overflowChecks r s recoveryId h
    obtain ⟨v, -, hraw⟩ := Option.bind_eq_some_iff.mp h
    have hitems := Rlp.encode_prefixCode.inj (fits_signedItems hdata) (fits_signingItems hdata')
      (Option.some.inj hraw)
    exact signedItems_eq_signingItems (Item.list.inj hitems)

/-- The transaction of the tests. -/
def sample (chainId : UInt64) : UnsignedTx where
  nonce := 0
  gasPrice := .ofNat 20000000000
  gasLimit := 100000
  toAddr := Vector.replicate 20 0x11
  value := .ofNat 0
  data := [1, 2, 3]
  chainId := chainId

/-- A signature for one chain is not one for another. -/
theorem signingPayload_binding_chain :
    (sample 11155111).signingPayload ≠ (sample 1).signingPayload := by
  intro h
  have hsame := (signingPayload_binding (by decide) (by decide)).1.mp h
  exact absurd hsame (by decide)

/-! ## The broadcast bytes -/

theorem signatureV_eq_some {overflowChecks : Bool} {recoveryId : UInt8}
    (hv : tx.chainId.toNat * 2 + 35 + recoveryId.toNat < 2 ^ 64) :
    tx.signatureV overflowChecks recoveryId =
      some (.ofNat (tx.chainId.toNat * 2 + 35 + recoveryId.toNat)) := by
  have hfits : decide (2 ^ 64 ≤ tx.chainId.toNat * 2 + 35 + recoveryId.toNat) = false :=
    decide_eq_false (by omega)
  rw [signatureV, hfits, Bool.and_false]
  rfl

/-- Two transactions of the same fields, on chains whose `v` are the same. -/
theorem eq_of_chainId (h : { tx with chainId := 0 } = { tx' with chainId := 0 })
    (hchain : tx.chainId = tx'.chainId) : tx = tx' := by
  obtain ⟨nonce, gasPrice, gasLimit, toAddr, value, data, chainId⟩ := tx
  obtain ⟨nonce', gasPrice', gasLimit', toAddr', value', data', chainId'⟩ := tx'
  simp only [UnsignedTx.mk.injEq, and_true] at h hchain ⊢
  exact ⟨h.1, h.2.1, h.2.2.1, h.2.2.2.1, h.2.2.2.2.1, h.2.2.2.2.2, hchain⟩

/-- **What is broadcast determines the transaction and its signature**, when the recovery id is that
of an `r` that was not reduced (0 or 1) and `v` fits a `u64`. -/
theorem signedTxRlp_unique {overflowChecks : Bool} {recoveryId recoveryId' : UInt8}
    (hdata : tx.data.length < 2 ^ 63) (hdata' : tx'.data.length < 2 ^ 63)
    (hid : recoveryId.toNat ≤ 1) (hid' : recoveryId'.toNat ≤ 1)
    (hv : tx.chainId.toNat * 2 + 35 + recoveryId.toNat < 2 ^ 64)
    (hv' : tx'.chainId.toNat * 2 + 35 + recoveryId'.toNat < 2 ^ 64) :
    tx.signedTxRlp overflowChecks r s recoveryId =
        tx'.signedTxRlp overflowChecks r' s' recoveryId' ↔
      tx = tx' ∧ r = r' ∧ s = s' ∧ recoveryId = recoveryId' := by
  constructor
  · intro h
    rw [signedTxRlp, signedTxRlp, signatureV_eq_some hv, signatureV_eq_some hv'] at h
    have hitems := Rlp.encode_prefixCode.inj (fits_signedItems hdata) (fits_signedItems hdata')
      (Option.some.inj h)
    obtain ⟨hfields, hsame, rfl, rfl⟩ := signedItems_inj.mp (Item.list.inj hitems)
    have hnat := congrArg UInt64.toNat hsame
    rw [UInt64.toNat_ofNat_of_lt' hv, UInt64.toNat_ofNat_of_lt' hv'] at hnat
    -- the parity of `v - 35` is the recovery id
    have hchain : tx.chainId = tx'.chainId := UInt64.toNat_inj.mp (by omega)
    exact ⟨eq_of_chainId hfields hchain, rfl, rfl, UInt8.toNat_inj.mp (by omega)⟩
  · rintro ⟨rfl, rfl, rfl, rfl⟩
    rfl

/-- The two recovery ids give different bytes. -/
theorem signedTxRlp_unique_recoveryId :
    (sample 1).signedTxRlp true (Vector.replicate 32 0xaa) (Vector.replicate 32 0xbb) 0 ≠
      (sample 1).signedTxRlp true (Vector.replicate 32 0xaa) (Vector.replicate 32 0xbb) 1 := by
  intro h
  obtain ⟨-, -, -, hid⟩ := (signedTxRlp_unique (by decide) (by decide) (by decide) (by decide)
    (by decide) (by decide)).mp h
  exact absurd hid (by decide)

end UnsignedTx

end Driftbrake
