import Driftbrake.Simulation.Backend
import Driftbrake.Trading.Transaction

/-!
# ABI words

The calls and the data of the `toy-arbitrage` example are sequences of 32-byte words.
`decode_u256_word` reads the low half of a word, so what it returns is the number in the word modulo
`2 ^ 128` (`decodeU256Word_eq`).
-/

namespace Driftbrake

namespace Trading

section
variable (keccak256 : List UInt8 → TxHash)

/-- The first 4 bytes of the hash of a signature. -/
def functionSelector (signature : String) : Vector UInt8 4 :=
  let hash := keccak256 signature.toUTF8.toList
  #v[hash[0], hash[1], hash[2], hash[3]]

def eventTopic0 (signature : String) : TxHash := keccak256 signature.toUTF8.toList

end

def encodeAddress (addr : Address) : List UInt8 := List.replicate 12 0 ++ addr.toList

def encodeU256 (value : U128) : List UInt8 := List.replicate 16 0 ++ value.toBeBytes

def encodeArbCall (selector : Vector UInt8 4) (buyPool sellPool : Address) (amount : U128) :
    List UInt8 :=
  selector.toList ++ encodeAddress buyPool ++ encodeAddress sellPool ++ encodeU256 amount

def encodeNoArgCall (selector : Vector UInt8 4) : List UInt8 := selector.toList

/-- `data.get(i..j)`. -/
def getRange (data : List UInt8) (i j : Nat) : Option (List UInt8) :=
  if i ≤ j ∧ j ≤ data.length then some (slice data i j) else none

def decodeU256Word (data : List UInt8) (wordIndex : Nat) : Option U128 := do
  let start := wordIndex * 32
  let word ← getRange data start (start + 32)
  let low ← getRange word 16 32
  some (.fromBeBytes low)

structure PoolReserves where
  reserve0 : U128
  reserve1 : U128
deriving DecidableEq, Repr

def decodeReserves (raw : RawSimOutput) : Option PoolReserves := do
  let reserve0 ← decodeU256Word raw.returnData 0
  let reserve1 ← decodeU256Word raw.returnData 1
  some ⟨reserve0, reserve1⟩

/-! ## Reading words -/

/-- The number in a word. -/
def wordAt (data : List UInt8) (i : Nat) : Nat := ofBe (slice data (i * 32) (i * 32 + 32))

theorem ofBe_append (as bs : List UInt8) :
    ofBe (as ++ bs) = ofBe as * 256 ^ bs.length + ofBe bs := by
  induction as with
  | nil => simp [ofBe]
  | cons a as ih =>
    rw [List.cons_append, ofBe_cons, ih, ofBe_cons, List.length_append, pow_add]
    ring

theorem ofNat_ofBe_drop {bs : List UInt8} (h : bs.length = 32) :
    U128.ofNat (ofBe (slice bs 16 32)) = U128.ofNat (ofBe bs) := by
  have hsplit : bs = slice bs 0 16 ++ slice bs 16 32 := by
    rw [slice_append_slice (by omega) (by omega), ← h, slice_length]
  have hlow : (slice bs 16 32).length = 16 := by rw [length_slice (by omega)]
  have hofBe : ofBe bs = ofBe (slice bs 0 16) * 2 ^ 128 + ofBe (slice bs 16 32) := by
    rw [show (2 : Nat) ^ 128 = 256 ^ (slice bs 16 32).length by rw [hlow]; rfl, ← ofBe_append,
      ← hsplit]
  rw [hofBe, U128.ofNat, U128.ofNat]
  congr 1
  apply BitVec.eq_of_toNat_eq
  rw [BitVec.toNat_ofNat, BitVec.toNat_ofNat, Nat.mul_add_mod']

/-- A word is read if the data has it, and its number modulo `2 ^ 128` is returned. -/
theorem decodeU256Word_eq (data : List UInt8) (i : Nat) :
    decodeU256Word data i =
      if i * 32 + 32 ≤ data.length then some (.ofNat (wordAt data i)) else none := by
  by_cases h : i * 32 + 32 ≤ data.length
  · have hlen : (slice data (i * 32) (i * 32 + 32)).length = 32 := by
      rw [length_slice h]
      omega
    have hword : getRange data (i * 32) (i * 32 + 32) = some (slice data (i * 32) (i * 32 + 32)) :=
      if_pos ⟨by omega, h⟩
    have hlow : getRange (slice data (i * 32) (i * 32 + 32)) 16 32 =
        some (slice (slice data (i * 32) (i * 32 + 32)) 16 32) :=
      if_pos ⟨by omega, by omega⟩
    rw [decodeU256Word, hword, Option.bind_eq_bind, Option.bind_some, hlow, Option.bind_some,
      if_pos h, wordAt, ← ofNat_ofBe_drop hlen]
    rfl
  · have hword : getRange data (i * 32) (i * 32 + 32) = none := if_neg fun hr => h hr.2
    rw [decodeU256Word, hword, if_neg h]
    rfl

theorem wordAt_append_left {data rest : List UInt8} {i : Nat} (h : i * 32 + 32 ≤ data.length) :
    wordAt (data ++ rest) i = wordAt data i := by
  rw [wordAt, wordAt, slice, slice, List.drop_append_of_le_length (by omega),
    List.take_append_of_le_length (by rw [List.length_drop]; omega)]

/-- Words behind whole words. -/
theorem wordAt_append_right {data rest : List UInt8} {i : Nat} (n : Nat)
    (h : data.length = n * 32) : wordAt (data ++ rest) (n + i) = wordAt rest i := by
  rw [wordAt, wordAt, slice, slice, List.drop_append, List.drop_eq_nil_of_le (by omega), h,
    List.nil_append, show (n + i) * 32 - n * 32 = i * 32 by omega]
  congr 2
  omega

/-! ## What is encoded is read back -/

@[simp] theorem length_encodeU256 (value : U128) : (encodeU256 value).length = 32 := by
  simp [encodeU256]

@[simp] theorem length_encodeAddress (addr : Address) : (encodeAddress addr).length = 32 := by
  simp [encodeAddress]

theorem ofBe_replicate_zero (n : Nat) : ofBe (List.replicate n 0) = 0 := by
  induction n with
  | zero => rfl
  | succ n ih => simp [List.replicate_succ, ofBe_cons, ih]

theorem wordAt_zero {data rest : List UInt8} (h : data.length = 32) :
    wordAt (data ++ rest) 0 = ofBe data := by
  rw [wordAt_append_left (by omega), wordAt, Nat.zero_mul, Nat.zero_add, ← h, slice_length]

theorem ofBe_encodeU256 (value : U128) : ofBe (encodeU256 value) = value.toNat := by
  rw [encodeU256, ofBe_append, ofBe_replicate_zero, Nat.zero_mul, Nat.zero_add, U128.toBeBytes]
  exact ofBe_toBe (n := 16) value.toBitVec.isLt

theorem ofBe_encodeAddress (addr : Address) : ofBe (encodeAddress addr) = ofBe addr.toList := by
  rw [encodeAddress, ofBe_append, ofBe_replicate_zero, Nat.zero_mul, Nat.zero_add]

/-- The words of a call of the executor, behind the selector. -/
theorem wordAt_encodeArbCall (selector : Vector UInt8 4) (buyPool sellPool : Address)
    (amount : U128) :
    let args := (encodeArbCall selector buyPool sellPool amount).drop 4
    args.length = 96 ∧ wordAt args 0 = ofBe buyPool.toList ∧ wordAt args 1 = ofBe sellPool.toList ∧
      wordAt args 2 = amount.toNat := by
  have hargs : (encodeArbCall selector buyPool sellPool amount).drop 4 =
      encodeAddress buyPool ++ (encodeAddress sellPool ++ encodeU256 amount) := by
    rw [encodeArbCall, List.append_assoc, List.append_assoc]
    exact List.drop_left' selector.length_toList
  have hamount : wordAt (encodeU256 amount ++ []) 0 = ofBe (encodeU256 amount) :=
    wordAt_zero (length_encodeU256 amount)
  simp only [hargs]
  refine ⟨by simp, ?_, ?_, ?_⟩
  · rw [wordAt_zero (length_encodeAddress buyPool), ofBe_encodeAddress]
  · rw [wordAt_append_right (i := 0) 1 (by rw [length_encodeAddress]),
      wordAt_zero (length_encodeAddress sellPool), ofBe_encodeAddress]
  · rw [wordAt_append_right (i := 1) 1 (by rw [length_encodeAddress]),
      wordAt_append_right (i := 0) 1 (by rw [length_encodeAddress]), ← ofBe_encodeU256, ← hamount,
      List.append_nil]

end Trading

end Driftbrake
