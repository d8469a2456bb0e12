import Driftbrake.Lib.BigEndian

/-!
# The data types of `driftbrake-core`

`i128` and `u128` are 128-bit words with a signed and an unsigned reading. `f64` is a parameter
`F` of the types that hold one: the guards are modelled over any arithmetic (`Core/Arith.lean`).
-/

namespace Driftbrake

/-- `i128`, in two's complement. -/
structure I128 where
  ofBitVec ::
  toBitVec : BitVec 128
deriving DecidableEq, Repr

/-- `u128`. -/
structure U128 where
  ofBitVec ::
  toBitVec : BitVec 128
deriving DecidableEq, Repr

namespace I128

def toInt (x : I128) : Int := x.toBitVec.toInt

def ofInt (n : Int) : I128 := ⟨.ofInt 128 n⟩

def toBeBytes (x : I128) : List UInt8 := toBe 16 x.toBitVec.toNat

def fromBeBytes (bs : List UInt8) : I128 := ⟨.ofNat 128 (ofBe bs)⟩

@[simp] theorem length_toBeBytes (x : I128) : x.toBeBytes.length = 16 := length_toBe ..

@[simp] theorem fromBeBytes_toBeBytes (x : I128) : fromBeBytes x.toBeBytes = x := by
  simp [fromBeBytes, toBeBytes, ofBe_toBe (n := 16) x.toBitVec.isLt]

theorem toBeBytes_fromBeBytes {bs : List UInt8} (h : bs.length = 16) :
    (fromBeBytes bs).toBeBytes = bs := by
  have hlt : ofBe bs < 2 ^ 128 := by
    have := ofBe_lt bs
    rwa [h] at this
  rw [toBeBytes, fromBeBytes, BitVec.toNat_ofNat, Nat.mod_eq_of_lt hlt, toBe_ofBe h]

end I128

namespace U128

def toNat (x : U128) : Nat := x.toBitVec.toNat

def ofNat (n : Nat) : U128 := ⟨.ofNat 128 n⟩

def toBeBytes (x : U128) : List UInt8 := toBe 16 x.toNat

def fromBeBytes (bs : List UInt8) : U128 := .ofNat (ofBe bs)

@[simp] theorem length_toBeBytes (x : U128) : x.toBeBytes.length = 16 := length_toBe ..

@[simp] theorem fromBeBytes_toBeBytes (x : U128) : fromBeBytes x.toBeBytes = x := by
  simp [fromBeBytes, toBeBytes, ofNat, toNat, ofBe_toBe (n := 16) x.toBitVec.isLt]

theorem toBeBytes_fromBeBytes {bs : List UInt8} (h : bs.length = 16) :
    (fromBeBytes bs).toBeBytes = bs := by
  have hlt : ofBe bs < 2 ^ 128 := by
    have := ofBe_lt bs
    rwa [h] at this
  rw [toBeBytes, fromBeBytes, toNat, ofNat, BitVec.toNat_ofNat, Nat.mod_eq_of_lt hlt, toBe_ofBe h]

end U128

/-- `u64::to_be_bytes`. -/
def u64ToBeBytes (x : UInt64) : List UInt8 := toBe 8 x.toNat

def u64FromBeBytes (bs : List UInt8) : UInt64 := .ofNat (ofBe bs)

@[simp] theorem length_u64ToBeBytes (x : UInt64) : (u64ToBeBytes x).length = 8 := length_toBe ..

@[simp] theorem u64FromBeBytes_toBeBytes (x : UInt64) : u64FromBeBytes (u64ToBeBytes x) = x := by
  simp [u64FromBeBytes, u64ToBeBytes, ofBe_toBe (n := 8) x.toNat_lt]

theorem u64ToBeBytes_fromBeBytes {bs : List UInt8} (h : bs.length = 8) :
    u64ToBeBytes (u64FromBeBytes bs) = bs := by
  have hlt : ofBe bs < 2 ^ 64 := by
    have := ofBe_lt bs
    rwa [h] at this
  rw [u64ToBeBytes, u64FromBeBytes, UInt64.toNat_ofNat_of_lt' hlt, toBe_ofBe h]

/-- `[u8; 32]`, a transaction hash. -/
abbrev TxHash := Vector UInt8 32

structure PredictedProfit where
  val : I128
deriving DecidableEq, Repr

structure RealizedProfit where
  val : I128
deriving DecidableEq, Repr

structure Log where
  address : List UInt8
  topics : List TxHash
  data : List UInt8
deriving DecidableEq, Repr

inductive TxStatus
  | confirmed
  | reverted
deriving DecidableEq, Repr

structure TxReceipt where
  txHash : TxHash
  blockNumber : UInt64
  status : TxStatus
  gasUsed : UInt64
  effectiveGasPrice : U128
deriving DecidableEq, Repr

/-- A confirmed-but-reverted transaction. -/
structure RevertEvent where
  txHash : TxHash
  blockNumber : UInt64
  reason : Option String
  gasUsed : UInt64
  effectiveGasPrice : U128
deriving DecidableEq, Repr

/-- A chronological event in the execution timeline. -/
inductive HistoryEntry
  | confirmedPair (predicted : PredictedProfit) (realized : RealizedProfit)
  | revertedTx (event : RevertEvent)
deriving DecidableEq, Repr

inductive DecodeError
  | reverted
  | malformedData (msg : String)
  | missingProfitEvent
  | other (msg : String)
deriving DecidableEq, Repr

/-- Why a `HaltDecision.halt` was returned. The integers are the values the guard computed. -/
inductive HaltReason (F : Type)
  | fastGuard (window : List F) (threshold : F)
  | slowGuard (meanRatio : F) (windowSize : Nat) (threshold : F)
  | revertBurst (consecutiveReverts limit : Nat)
  | revertGasBudgetExceeded (gasCostBurned : Nat) (budgetLimit : U128) (window : Nat)
  | volumeWeightedDrift (weightedRatio threshold : F) (window : Nat)
  | netDrawdownExceeded (netSlippageLoss : Int) (maxDrawdownLimit : I128) (window : Nat)
  | custom (msg : String)
deriving DecidableEq, Repr

inductive HaltDecision (F : Type)
  | continue
  | halt (reason : HaltReason F)
deriving DecidableEq, Repr

end Driftbrake
