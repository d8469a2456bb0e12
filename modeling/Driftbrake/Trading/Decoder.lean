import Driftbrake.Core.Machine
import Driftbrake.Trading.Abi

/-!
# The decoders of the example

`ToyArbProfitDecoder` reads the predicted profit from the return data of a simulation and
`ToyArbRealizedDecoder` the realized profit from the `Profit` event of a confirmed receipt, less the
gas. Both read words modulo `2 ^ 128`; `decodeRealized_ok` says what that leaves of the net profit.
-/

namespace Driftbrake

/-- `x as i128` for a `u128`: the same bits. -/
def U128.asI128 (x : U128) : I128 := ⟨x.toBitVec⟩

theorem U128.asI128_modEq (x : U128) : x.asI128.toInt ≡ x.toNat [ZMOD 2 ^ 128] := by
  have h := BitVec.toInt_eq_toNat_bmod x.toBitVec
  rw [I128.toInt, U128.asI128, U128.toNat, h]
  exact Int.bmod_emod

theorem U128.toNat_ofNat_modEq (n : Nat) : ((U128.ofNat n).toNat : Int) ≡ n [ZMOD 2 ^ 128] := by
  rw [U128.toNat, U128.ofNat, BitVec.toNat_ofNat, Int.natCast_mod]
  exact Int.mod_modEq ..

theorem U128.asI128_ofNat_modEq (n : Nat) : (U128.ofNat n).asI128.toInt ≡ n [ZMOD 2 ^ 128] :=
  (U128.asI128_modEq _).trans (U128.toNat_ofNat_modEq n)

theorem U128.asI128_toInt {n : Nat} (h : n < 2 ^ 127) : (U128.ofNat n).asI128.toInt = n := by
  rw [I128.toInt, U128.asI128, U128.ofNat, BitVec.toInt_ofNat']
  exact Int.bmod_eq_of_le (by omega) (by omega)

namespace Trading

def executeArbSignature : String := "executeArb(address,address,uint256)"

def profitEventSignature : String := "Profit(uint256)"

/-- `ToyArbProfitDecoder::decode_predicted`. -/
def decodePredicted (raw : RawSimOutput) : Except DecodeError PredictedProfit :=
  if raw.revertReason.isSome then .error .reverted
  else match decodeU256Word raw.returnData 0 with
    | some profit => .ok ⟨profit.asI128⟩
    | none => .error (.malformedData "executeArb return data too short for one uint256")

/-- The integer operations of `decode_realized`: the net of a gross profit and the gas of a receipt.
`none` is a panic. -/
def netProfit (overflowChecks : Bool) (gross : U128) (receipt : TxReceipt) :
    Option RealizedProfit := do
  let gasCost ← U128.result overflowChecks
    (receipt.gasUsed.toNat * receipt.effectiveGasPrice.toNat)
  let net ← I128.result overflowChecks (gross.asI128.toInt - (U128.ofNat gasCost).asI128.toInt)
  some ⟨.ofInt net⟩

/-- The first log of the `Profit` event. -/
def profitLog? (keccak256 : List UInt8 → TxHash) (logs : List Log) : Option Log :=
  logs.find? fun log => log.topics.head? == some (eventTopic0 keccak256 profitEventSignature)

/-- `ToyArbRealizedDecoder::decode_realized`; `none` is a panic. -/
def decodeRealized (keccak256 : List UInt8 → TxHash) (overflowChecks : Bool) (receipt : TxReceipt)
    (logs : List Log) : Option (Except DecodeError RealizedProfit) :=
  match receipt.status with
  | .reverted => some (.error (.other "decode_realized called on a non-confirmed receipt"))
  | .confirmed =>
    match profitLog? keccak256 logs with
    | none => some (.error .missingProfitEvent)
    | some log =>
      match decodeU256Word log.data 0 with
      | none => some (.error (.malformedData "Profit event data too short for one uint256"))
      | some gross => (netProfit overflowChecks gross receipt).map .ok

/-! ## Predicted profit -/

/-- A profit is only predicted from an execution that succeeded and returned a word, and it has the
residue of that word. -/
theorem decodePredicted_eq_ok {raw : RawSimOutput} {predicted : PredictedProfit}
    (h : decodePredicted raw = .ok predicted) :
    raw.revertReason = none ∧ 32 ≤ raw.returnData.length ∧
      predicted.val.toInt ≡ wordAt raw.returnData 0 [ZMOD 2 ^ 128] := by
  rw [decodePredicted, decodeU256Word_eq] at h
  split at h
  · cases h
  · rename_i hreverted
    by_cases hlen : 0 * 32 + 32 ≤ raw.returnData.length
    · rw [if_pos hlen] at h
      cases h
      exact ⟨Option.not_isSome_iff_eq_none.mp hreverted, by omega, U128.asI128_ofNat_modEq _⟩
    · rw [if_neg hlen] at h
      cases h

/-- Of the results of an execution only a success is decoded as a profit. -/
theorem decodePredicted_convertResult {result : ExecutionResult} {predicted : PredictedProfit}
    (h : decodePredicted (convertResult result) = .ok predicted) :
    ∃ gasUsed logs output, result = .success gasUsed logs output ∧ 32 ≤ output.length ∧
      predicted.val.toInt ≡ wordAt output 0 [ZMOD 2 ^ 128] := by
  obtain ⟨hreason, hlen, hword⟩ := decodePredicted_eq_ok h
  cases result with
  | success gasUsed logs output => exact ⟨gasUsed, logs, output, rfl, hlen, hword⟩
  | revert gasUsed output => cases hreason
  | halt reason gasUsed => cases hreason

/-! ## Realized profit -/

/-- The gas of a transaction, as a number. -/
def gasCost (receipt : TxReceipt) : Nat :=
  receipt.gasUsed.toNat * receipt.effectiveGasPrice.toNat

section
variable {overflowChecks : Bool} {gross : U128} {receipt : TxReceipt} {net : RealizedProfit}

/-- The casts and, in a build without checks, the operations lose multiples of `2 ^ 128`. -/
theorem netProfit_modEq (h : netProfit overflowChecks gross receipt = some net) :
    net.val.toInt ≡ (gross.toNat : Int) - gasCost receipt [ZMOD 2 ^ 128] := by
  obtain ⟨cost, hcost, h⟩ := Option.bind_eq_some_iff.mp h
  obtain ⟨n, hn, h⟩ := Option.bind_eq_some_iff.mp h
  cases h
  obtain ⟨hrange, hmod⟩ := I128.of_result_eq_some hn
  have hcostMod : (cost : Int) ≡ gasCost receipt [ZMOD 2 ^ 128] := by
    rw [U128.of_result_eq_some hcost, Int.natCast_mod]
    exact Int.mod_modEq ..
  have hgross := U128.asI128_modEq gross
  have hgas := (U128.asI128_ofNat_modEq cost).trans hcostMod
  rw [I128.toInt_ofInt hrange]
  exact hmod.trans (hgross.sub hgas)

/-- Profits and costs that are `i128` numbers are subtracted exactly in every build. -/
theorem netProfit_exact {n : Nat} (hgross : n < 2 ^ 127) (hcost : gasCost receipt < 2 ^ 127) :
    netProfit overflowChecks (.ofNat n) receipt = some ⟨.ofInt (n - gasCost receipt)⟩ := by
  have hmul : U128.result overflowChecks
      (receipt.gasUsed.toNat * receipt.effectiveGasPrice.toNat) = some (gasCost receipt) :=
    U128.result_of_lt (hcost.trans (by decide))
  have hrange : I128.InRange ((n : Int) - gasCost receipt) := ⟨by omega, by omega⟩
  rw [netProfit, hmul, Option.bind_eq_bind, Option.bind_some, U128.asI128_toInt hgross,
    U128.asI128_toInt hcost, I128.result_of_inRange hrange]
  rfl

end

variable {keccak256 : List UInt8 → TxHash} {overflowChecks : Bool} {receipt : TxReceipt}
  {logs : List Log} {log : Log} {net : RealizedProfit}

/-- The word of the event is read from a log that has the event's topic first. -/
theorem decodeRealized_of_profitLog (hstatus : receipt.status = .confirmed)
    (hlog : profitLog? keccak256 logs = some log) (hlen : 32 ≤ log.data.length) :
    decodeRealized keccak256 overflowChecks receipt logs =
      (netProfit overflowChecks (.ofNat (wordAt log.data 0)) receipt).map .ok := by
  have hword : decodeU256Word log.data 0 = some (.ofNat (wordAt log.data 0)) := by
    rw [decodeU256Word_eq, if_pos (by omega)]
  rw [decodeRealized, hstatus]
  simp only [hlog, hword]

theorem decodeRealized_eq_ok
    (h : decodeRealized keccak256 overflowChecks receipt logs = some (.ok net)) :
    receipt.status = .confirmed ∧ ∃ log, profitLog? keccak256 logs = some log ∧
      32 ≤ log.data.length ∧
        netProfit overflowChecks (.ofNat (wordAt log.data 0)) receipt = some net := by
  cases hstatus : receipt.status with
  | reverted =>
    rw [decodeRealized, hstatus] at h
    cases h
  | confirmed =>
    cases hlog : profitLog? keccak256 logs with
    | none =>
      rw [decodeRealized, hstatus] at h
      simp only [hlog] at h
      cases h
    | some log =>
      by_cases hlen : 32 ≤ log.data.length
      · rw [decodeRealized_of_profitLog hstatus hlog hlen] at h
        obtain ⟨n, hn, hnet⟩ := Option.map_eq_some_iff.mp h
        cases hnet
        exact ⟨rfl, log, rfl, hlen, hn⟩
      · have hword : decodeU256Word log.data 0 = none := by
          rw [decodeU256Word_eq, if_neg (by omega)]
        rw [decodeRealized, hstatus] at h
        simp only [hlog, hword] at h
        cases h

/-- **The realized profit is the event's amount less the gas.** In every build, a profit that is
returned has the residue of that difference, and is the difference just when it is an `i128`; and
where the amount and the gas are `i128` numbers, the difference is returned. -/
theorem decodeRealized_net :
    (∀ {net}, decodeRealized keccak256 overflowChecks receipt logs = some (.ok net) →
      receipt.status = .confirmed ∧ ∃ log, profitLog? keccak256 logs = some log ∧
        32 ≤ log.data.length ∧
        net.val.toInt ≡ (wordAt log.data 0 : Int) - gasCost receipt [ZMOD 2 ^ 128] ∧
        (net.val.toInt = (wordAt log.data 0 : Int) - gasCost receipt ↔
          I128.InRange ((wordAt log.data 0 : Int) - gasCost receipt))) ∧
    ∀ {log}, receipt.status = .confirmed → profitLog? keccak256 logs = some log →
      32 ≤ log.data.length → wordAt log.data 0 < 2 ^ 127 → gasCost receipt < 2 ^ 127 →
      ∃ net, decodeRealized keccak256 overflowChecks receipt logs = some (.ok net) ∧
        net.val.toInt = (wordAt log.data 0 : Int) - gasCost receipt := by
  constructor
  · intro net h
    obtain ⟨hstatus, log, hlog, hlen, hnet⟩ := decodeRealized_eq_ok h
    have hmod : net.val.toInt ≡ (wordAt log.data 0 : Int) - gasCost receipt [ZMOD 2 ^ 128] :=
      (netProfit_modEq hnet).trans ((U128.toNat_ofNat_modEq _).sub_right _)
    refine ⟨hstatus, log, hlog, hlen, hmod, fun heq => ?_, fun hrange => ?_⟩
    · rw [← heq]
      exact I128.inRange_toInt _
    · rw [I128.eq_of_modEq (I128.inRange_toInt _) hmod, I128.toInt_ofInt hrange]
  · intro log hstatus hlog hlen hgross hcost
    refine ⟨⟨.ofInt (wordAt log.data 0 - gasCost receipt)⟩, ?_, ?_⟩
    · rw [decodeRealized_of_profitLog hstatus hlog hlen, netProfit_exact hgross hcost]
      rfl
    · exact I128.toInt_ofInt ⟨by omega, by omega⟩

/-- The receipt of the tests, with a gas cost of 4e15. -/
def sampleReceipt : TxReceipt where
  txHash := Vector.replicate 32 0
  blockNumber := 1
  status := .confirmed
  gasUsed := 200000
  effectiveGasPrice := .ofNat 20000000000

/-- The event of the tests, under a hash that maps everything to zero. -/
def sampleLog (amount : Nat) : Log where
  address := List.replicate 20 0xee
  topics := [Vector.replicate 32 0]
  data := encodeU256 (.ofNat amount)

/-- 5e15 earned, 4e15 paid for gas. -/
theorem decodeRealized_net_sample :
    ∃ net, decodeRealized (fun _ => Vector.replicate 32 0) true sampleReceipt
        [sampleLog 5000000000000000] = some (.ok net) ∧
      net.val.toInt = (wordAt (sampleLog 5000000000000000).data 0 : Int) - gasCost sampleReceipt ∧
      net.val.toInt = 1000000000000000 := by
  obtain ⟨net, hnet, hval⟩ : ∃ net, decodeRealized (fun _ => Vector.replicate 32 0) true
      sampleReceipt [sampleLog 5000000000000000] = some (.ok net) ∧
      net.val.toInt = (wordAt (sampleLog 5000000000000000).data 0 : Int) - gasCost sampleReceipt :=
    decodeRealized_net.2 rfl rfl (by decide) (by decide) (by decide)
  exact ⟨net, hnet, hval, hval.trans (by decide)⟩

end Trading

end Driftbrake
