import Driftbrake.Trading.Halting

/-!
# Injected drift

`DriftInjectingDecoder` passes the first profits of another decoder through and dampens those behind
them, which is what `--inject-drift` does to the loop. The pairs that the loop books are what this
decoder has made of the receipts, in order (`tradingLoop_injected`), so the default guards halt the
loop by the third dampened trade (`tradingLoop_drift`).
-/

namespace Driftbrake

namespace Trading

open Prog (Event Does Split)

variable {F E σ : Type}

structure DriftInjectingDecoder (F : Type) where
  inner : TxReceipt → List Log → Except DecodeError RealizedProfit
  driftAfter : UInt64
  dampingFactor : F

namespace DriftInjectingDecoder

variable (self : DriftInjectingDecoder F) (A : PoolArith F)

/-- What becomes of the profit of the call number `n`. -/
def damped (n : UInt64) (realized : RealizedProfit) : RealizedProfit :=
  if n < self.driftAfter then realized
  else ⟨.ofInt (A.roundI128 (A.mul (A.ofI128 realized.val.toInt) self.dampingFactor))⟩

/-- `decode_realized`, with `calls_so_far` before and after. -/
def decodeRealized (receipt : TxReceipt) (logs : List Log) (callsSoFar : UInt64) :
    Except DecodeError RealizedProfit × UInt64 :=
  match self.inner receipt logs with
  | .error e => (.error e, callsSoFar)
  | .ok realized => (.ok (self.damped A callsSoFar realized), callsSoFar + 1)

/-- The surroundings of the loop, with this decoder in the poller. -/
def handler (h : Handler (LoopOp E) σ) : Handler (LoopOp E) (σ × UInt64) where
  step
    | .decodeRealized receipt logs, (s, callsSoFar) =>
      let (result, callsSoFar) := self.decodeRealized A receipt logs callsSoFar
      (result, (s, callsSoFar))
    | .simulate tx, (s, callsSoFar) =>
      ((h (.simulate tx) s).1, ((h (.simulate tx) s).2, callsSoFar))
    | .submit tx, (s, callsSoFar) => ((h (.submit tx) s).1, ((h (.submit tx) s).2, callsSoFar))
    | .now, (s, callsSoFar) => ((h .now s).1, ((h .now s).2, callsSoFar))
    | .getReceipt txHash, (s, callsSoFar) =>
      ((h (.getReceipt txHash) s).1, ((h (.getReceipt txHash) s).2, callsSoFar))
    | .sleep duration, (s, callsSoFar) =>
      ((h (.sleep duration) s).1, ((h (.sleep duration) s).2, callsSoFar))

end DriftInjectingDecoder

/-! ## The decoded profits of a run -/

/-- A profit that was decoded, with what it was decoded from. -/
def decodedProfit? : Event (LoopOp E) → Option ((TxReceipt × List Log) × RealizedProfit)
  | ⟨.decodeRealized receipt logs, .ok profit⟩ => some ((receipt, logs), profit)
  | _ => none

def decodedProfits (tr : List (Event (LoopOp E))) :
    List ((TxReceipt × List Log) × RealizedProfit) :=
  tr.filterMap decodedProfit?

/-- The decoded profits are those of `decoder` for the calls from number `n` on. -/
def Injected (decoder : DriftInjectingDecoder F) (A : PoolArith F) :
    UInt64 → List ((TxReceipt × List Log) × RealizedProfit) → Prop
  | _, [] => True
  | n, (source, profit) :: rest =>
    (∃ realized, decoder.inner source.1 source.2 = .ok realized ∧
      profit = decoder.damped A n realized) ∧ Injected decoder A (n + 1) rest

variable {decoder : DriftInjectingDecoder F} {A : PoolArith F} {h : Handler (LoopOp E) σ}

theorem Injected.get {n : UInt64} {ps : List ((TxReceipt × List Log) × RealizedProfit)}
    (H : Injected decoder A n ps) {i : Nat} {source : TxReceipt × List Log}
    {profit : RealizedProfit} (hi : ps[i]? = some (source, profit)) :
    ∃ realized, decoder.inner source.1 source.2 = .ok realized ∧
      profit = decoder.damped A (n + .ofNat i) realized := by
  induction i generalizing n ps with
  | zero =>
    cases ps with
    | nil => cases hi
    | cons p ps =>
      cases hi
      have hn : n + .ofNat 0 = n := UInt64.add_zero n
      rw [hn]
      exact H.1
  | succ i ih =>
    cases ps with
    | nil => cases hi
    | cons p ps =>
      have hn : n + .ofNat (i + 1) = n + 1 + .ofNat i := by
        rw [UInt64.ofNat_add, UInt64.add_comm (.ofNat i), UInt64.add_assoc]
        rfl
      rw [hn]
      exact ih H.2 hi

/-- By induction on the program, whatever program uses the decoder. -/
theorem injected_trace {α : Type} (p : Prog (LoopOp E) α) (s : σ) (n : UInt64) :
    Injected decoder A n (decodedProfits (p.trace (decoder.handler A h) (s, n))) := by
  induction p generalizing s n with
  | pure a => trivial
  | call o k ih =>
    cases o with
    | decodeRealized receipt logs =>
      rw [Prog.trace]
      cases hinner : decoder.inner receipt logs with
      | error e =>
        have hstep : decoder.handler A h (.decodeRealized receipt logs) (s, n) =
            (.error e, (s, n)) := by
          simp [DriftInjectingDecoder.handler, DriftInjectingDecoder.decodeRealized, hinner]
        rw [hstep]
        exact ih _ _ _
      | ok realized =>
        have hstep : decoder.handler A h (.decodeRealized receipt logs) (s, n) =
            (.ok (decoder.damped A n realized), (s, n + 1)) := by
          simp [DriftInjectingDecoder.handler, DriftInjectingDecoder.decodeRealized, hinner]
        rw [hstep]
        exact ⟨⟨realized, hinner, rfl⟩, ih _ _ _⟩
    | _ => exact ih _ _ _

/-! ## The decoded profits of a session -/

variable {setup : Setup F} {polls : Nat} {start bot : Bot} {es tr : List (Event (LoopOp E))}

theorem decodedProfits_append (tr es : List (Event (LoopOp E))) :
    decodedProfits (tr ++ es) = decodedProfits tr ++ decodedProfits es := List.filterMap_append

theorem decodedProfits_quiet (hes : ∀ e ∈ es, Quiet e) : decodedProfits es = [] := by
  refine List.filterMap_eq_nil_iff.mpr fun e he => ?_
  obtain ⟨op, value⟩ := e
  cases op with
  | decodeRealized receipt logs => exact (hes _ he).elim
  | _ => rfl

theorem decodedProfits_offer (offer : Offer) (nonce : UInt64) (reply : Except E TxHash) :
    decodedProfits (offer.events setup nonce reply) = [] := rfl

/-- The profits that a poll has decoded. -/
theorem decodedProfits_embed (polled : List (Event (PollOp E))) :
    decodedProfits (polled.map (Event.embed LoopOp.ofPoll)) =
      (decodes polled).filterMap fun d => d.2.toOption.map (d.1, ·) := by
  rw [decodedProfits, decodes, List.filterMap_map, List.filterMap_filterMap]
  refine List.filterMap_congr fun e _ => ?_
  obtain ⟨op, value⟩ := e
  cases op with
  | decodeRealized receipt logs => cases value <;> rfl
  | _ => rfl

/-- The profit that a trade has realized. -/
def Trade.profit? (t : Trade E) : Option RealizedProfit :=
  match t.result with
  | .returned (.ok (.realized profit)) => some profit
  | _ => none

theorem Trade.profit?_eq_some {t : Trade E} {profit : RealizedProfit} :
    t.profit? = some profit ↔ t.result = .returned (.ok (.realized profit)) := by
  rw [Trade.profit?]
  split
  · simp [*]
  · rename_i hne
    refine ⟨fun h => ?_, fun h => absurd h (hne profit)⟩
    cases h

/-- A trade that is booked decodes the profit that it has realized, and no other. -/
theorem decodedProfits_trade {t : Trade E} {history history' : ReconcileHistory} (nonce : UInt64)
    (hbooks : t.Booked history history') :
    (decodedProfits (t.events setup nonce)).map (·.2) = t.profit?.toList := by
  rw [Trade.events, decodedProfits_append, decodedProfits_offer, List.nil_append,
    decodedProfits_embed]
  have hnone (hno : ∀ source profit, (source, .ok profit) ∉ decodes t.polled) :
      t.profit? = none := by
    refine Option.eq_none_iff_forall_ne_some.mpr fun profit hprofit => ?_
    obtain ⟨receipt, logs, -, -, hmem⟩ := hbooks.realized (Trade.profit?_eq_some.mp hprofit)
    exact hno _ _ hmem
  have honce := hbooks.once
  have hkeeps := hbooks.keeps
  rw [KeepsProfit] at hkeeps
  cases hdecodes : decodes t.polled with
  | nil =>
    rw [hnone fun source profit hmem => by rw [hdecodes] at hmem; cases hmem]
    rfl
  | cons d ds =>
    rw [hdecodes, List.length_cons] at honce
    obtain rfl : ds = [] := List.length_eq_zero_iff.mp (by omega)
    obtain ⟨source, decoded⟩ := d
    rw [hdecodes] at hnone hkeeps
    cases decoded with
    | error e =>
      rw [hnone (by simp)]
      rfl
    | ok profit =>
      rw [Trade.profit?_eq_some.mpr (hkeeps source profit (List.mem_singleton_self _))]
      rfl

theorem pairs_of_booked {t : Trade E} {history : ReconcileHistory}
    (hbooks : t.Booked bot.history history) :
    history.pairs = bot.history.pairs ++ t.profit?.toList.map (t.predicted, ·) := by
  cases hprofit : t.profit? with
  | some profit =>
    rw [history_of_realized hbooks (Trade.profit?_eq_some.mp hprofit)]
    rfl
  | none =>
    have hrealized : ¬t.Realized := by
      rintro ⟨profit, hresult⟩
      rw [Trade.profit?_eq_some.mpr hresult] at hprofit
      cases hprofit
    rw [pairs_of_unrealized hbooks hrealized]
    exact (List.append_nil _).symm

/-- The pairs of a session realize what was decoded, in order. -/
theorem Session.realized {ts : List (Trade E)} (H : Session setup start tr ts bot) :
    bot.history.pairs.map (·.2) =
      start.history.pairs.map (·.2) ++ (decodedProfits tr).map (·.2) := by
  induction H with
  | start => exact (List.append_nil _).symm
  | quiet _ hes ih =>
    rw [decodedProfits_append, decodedProfits_quiet hes, List.append_nil]
    exact ih
  | @trade tr ts bot history t _ _ _ hbooks ih =>
    rw [pairs_of_booked hbooks, List.map_append, ih, decodedProfits_append, List.map_append,
      decodedProfits_trade _ hbooks, List.append_assoc, List.map_map]
    congr 2
    exact List.map_id'' (fun _ => rfl) _

theorem Ended.realized {ts : List (Trade E)} (H : Ended setup start tr bot ts) :
    bot.history.pairs.map (·.2) =
      start.history.pairs.map (·.2) ++ (decodedProfits tr).map (·.2) := by
  cases H with
  | traded H => exact H.realized
  | refused offer reply H _ htr =>
    rw [htr, decodedProfits_append, decodedProfits_offer, List.append_nil]
    exact H.realized

/-! ## Few bad trades -/

section
open ReconcilePolicy

variable {p : ReconcilePolicy ℚ} {fast : FastGuardConfig ℚ} {slow : SlowGuardConfig ℚ}

/-- A trade that earned less than predicted. -/
def bad (q : Pair) : Bool := decide (q.exactRatio < 1)

/-- Each trade that is not bad adds one to the sum of the ratios. -/
theorem length_le_ratioSum {w : List Pair} (h : ∀ q ∈ w, 0 ≤ q.exactRatio) :
    (w.length : ℚ) ≤ ratioSum w + w.countP bad := by
  induction w with
  | nil => simp [ratioSum]
  | cons q w ih =>
    obtain ⟨hq, hw⟩ := List.forall_mem_cons.mp h
    have hsum : ratioSum (q :: w) = q.exactRatio + ratioSum w := by simp [ratioSum]
    have hle := ih hw
    rw [hsum, List.length_cons, List.countP_cons, bad]
    split
    · push_cast
      linarith
    · rename_i hgood
      have hone : 1 ≤ q.exactRatio := by simpa using hgood
      push_cast
      linarith

/-- Bad trades that are fewer than a fast window, and weigh less than a slow one can lose, halt
nothing. -/
theorem neverHalts_of_few_bad (H : p.RatioGuards fast slow) (hthreshold : fast.threshold ≤ 1)
    {sequence : Sequence} (hpos : sequence.all positive)
    (hratio : ∀ q ∈ sequence, 0 ≤ Pair.exactRatio q) (hfast : sequence.countP bad < fast.window)
    (hslow : slow.threshold * slow.window + (sequence.countP bad : ℚ) ≤ slow.window) :
    p.NeverHalts sequence.entries := by
  have hwindow : (0 : ℚ) < slow.window := by exact_mod_cast H.slow ▸ p.slow_pos
  intro n _
  refine evaluate_continue_iff.mpr fun g hg => ?_
  have hsub : positivePairs (sequence.entries.take (n + 1)) <+: sequence := by
    obtain ⟨rest, hrest⟩ := List.take_prefix (n + 1) sequence.entries
    refine ⟨positivePairs rest, ?_⟩
    rw [← positivePairs_append, hrest, positivePairs_entries hpos]
  have hlast (k : Nat) :
      ((positivePairs (sequence.entries.take (n + 1))).rtake k).Sublist sequence :=
    (rtake_suffix _ k).sublist.trans hsub.sublist
  obtain rfl | rfl := H.condition hg
  · obtain ⟨hlen, hall⟩ := hg
    have hcount := (hlast p.fast.window).countP_le (p := bad)
    have hbad : ∀ q ∈ (positivePairs (sequence.entries.take (n + 1))).rtake p.fast.window,
        bad q = true := by
      intro q hq
      rw [H.fast] at hall
      exact decide_eq_true ((hall q (H.fast ▸ hq)).trans_le hthreshold)
    rw [List.countP_eq_length.mpr hbad, length_rtake, Nat.min_eq_left hlen, H.fast] at hcount
    omega
  · obtain ⟨hlen, hmean⟩ := hg
    rw [H.slow] at hlen hmean
    have hcount := (hlast slow.window).countP_le (p := bad)
    have hsum := length_le_ratioSum fun q hq => hratio q ((hlast slow.window).subset hq)
    rw [length_rtake, Nat.min_eq_left hlen] at hsum
    rw [div_lt_iff₀ hwindow] at hmean
    have hcast :
        (((positivePairs (sequence.entries.take (n + 1))).rtake slow.window).countP bad : ℚ) ≤
          sequence.countP bad := by
      exact_mod_cast hcount
    linarith

end

/-! ## Every run -/

section
variable (decoder : DriftInjectingDecoder F) (A : PoolArith F) (setup : Setup F) (polls : Nat)
  (h : Handler (LoopOp E) σ) (rounds : Nat) (start : Bot) (s : σ) (n : UInt64)

/-- What a run with the decoder has decoded. -/
def injectedProfits : List ((TxReceipt × List Log) × RealizedProfit) :=
  decodedProfits (loopEvents A setup polls (decoder.handler A h) rounds start (s, n))

/-- How a run with the decoder has ended. -/
def injectedResult : Except (Exit F E) Bot :=
  loopResult A setup polls (decoder.handler A h) rounds start (s, n)

theorem injectedResult_realized :
    (finalBot (injectedResult decoder A setup polls h rounds start s n)).history.pairs.map (·.2) =
      start.history.pairs.map (·.2) ++
        (injectedProfits decoder A setup polls h rounds start s n).map (·.2) := by
  obtain ⟨ts, hts⟩ : ∃ ts, Ended setup start
      (loopEvents A setup polls (decoder.handler A h) rounds start (s, n))
      (finalBot (loopResult A setup polls (decoder.handler A h) rounds start (s, n))) ts :=
    tradingLoop_ended _ rounds (s, n)
  exact hts.realized

/-- **What the loop books is what the decoder has made of the receipts, in order**: the trade number
`i` of a run realizes the profit of the call number `n + i`, dampened from `drift_after` on. -/
theorem tradingLoop_injected :
    Injected decoder A n (injectedProfits decoder A setup polls h rounds start s n) ∧
      (finalBot (injectedResult decoder A setup polls h rounds start s n)).history.pairs.map (·.2) =
        start.history.pairs.map (·.2) ++
          (injectedProfits decoder A setup polls h rounds start s n).map (·.2) :=
  ⟨injected_trace _ s n, injectedResult_realized ..⟩

end

/-- Without the injection, every trade would earn what was predicted for it, and not next to
nothing. -/
def Honest (decoder : DriftInjectingDecoder F) (pairs : List Pair)
    (decoded : List ((TxReceipt × List Log) × RealizedProfit)) : Prop :=
  ∀ (i : Nat) (q : Pair) (source : TxReceipt × List Log) (profit : RealizedProfit),
    pairs[i]? = some q → decoded[i]? = some (source, profit) →
      decoder.inner source.1 source.2 = .ok ⟨q.1.val⟩ ∧ 3 ≤ q.predicted

/-- The first `n` trades have earned what was predicted, and those behind them less than half. -/
def DriftsAfter (n : UInt64) (pairs : List Pair) : Prop :=
  ∀ (i : Nat) (q : Pair), pairs[i]? = some q → 0 < q.predicted ∧
    if UInt64.ofNat i < n then q.realized = q.predicted
    else 0 ≤ q.realized ∧ 2 * q.realized < q.predicted

/-- A profit that is dampened to 30 percent is less than half. -/
theorem damped_lt {u : I128} (hu : 3 ≤ u.toInt) :
    let r := (I128.ofInt (PoolArith.exact.roundI128 (PoolArith.exact.mul u.toInt (3 / 10)))).toInt
    0 ≤ r ∧ 2 * r < u.toInt := by
  have hcast : (3 : ℚ) ≤ u.toInt := by exact_mod_cast hu
  have hmax := (I128.inRange_toInt u).2
  have hround : PoolArith.exact.roundI128 (PoolArith.exact.mul u.toInt (3 / 10)) =
      saturateI128 ⌊(u.toInt * (3 / 10) + 1 / 2 : ℚ)⌋ := by
    have hpos : (0 : ℚ) ≤ u.toInt * (3 / 10) := by positivity
    simp only [PoolArith.exact, roundHalfAway, if_pos hpos]
  have hfloor : (⌊(u.toInt * (3 / 10) + 1 / 2 : ℚ)⌋ : ℚ) ≤ u.toInt * (3 / 10) + 1 / 2 :=
    Int.floor_le _
  have hnonneg : 0 ≤ ⌊(u.toInt * (3 / 10) + 1 / 2 : ℚ)⌋ := Int.floor_nonneg.mpr (by linarith)
  have hlt : 2 * ⌊(u.toInt * (3 / 10) + 1 / 2 : ℚ)⌋ < u.toInt := by
    have hltq : (2 * ⌊(u.toInt * (3 / 10) + 1 / 2 : ℚ)⌋ : ℚ) < u.toInt := by linarith
    exact_mod_cast hltq
  dsimp only
  rw [hround]
  generalize ⌊(u.toInt * (3 / 10) + 1 / 2 : ℚ)⌋ = r at hnonneg hlt
  have hsat : saturateI128 r = r := by
    rw [saturateI128]
    omega
  rw [hsat, I128.toInt_ofInt ⟨by omega, by omega⟩]
  exact ⟨hnonneg, hlt⟩

section
variable {decoder : DriftInjectingDecoder ℚ} {pairs : List Pair} {n : UInt64}
  {decoded : List ((TxReceipt × List Log) × RealizedProfit)}

theorem Honest.driftsAfter (H : Honest decoder pairs decoded)
    (hfactor : decoder.dampingFactor = 3 / 10)
    (hinjected : Injected decoder PoolArith.exact 0 decoded)
    (hrealized : pairs.map (·.2) = decoded.map (·.2)) : DriftsAfter decoder.driftAfter pairs := by
  intro i q hi
  obtain ⟨⟨source, profit⟩, hdecoded, hprofit⟩ : ∃ d, decoded[i]? = some d ∧ d.2 = q.2 := by
    have hget := congrArg (·[i]?) hrealized
    simp only [List.getElem?_map, hi, Option.map_some] at hget
    exact Option.map_eq_some_iff.mp hget.symm
  obtain ⟨hinner, hpredicted⟩ := H i q source profit hi hdecoded
  obtain ⟨realized, hinner', hdamped⟩ := hinjected.get hdecoded
  rw [hinner] at hinner'
  cases hinner'
  dsimp only at hprofit
  rw [UInt64.zero_add, DriftInjectingDecoder.damped, hprofit] at hdamped
  refine ⟨by omega, ?_⟩
  split at hdamped
  · rename_i hlt
    rw [if_pos hlt, Pair.realized, hdamped]
    rfl
  · rename_i hle
    rw [if_neg hle, Pair.realized, hdamped, hfactor]
    exact damped_lt hpredicted

variable (H : DriftsAfter n pairs)
include H

theorem DriftsAfter.positive : pairs.all positive := by
  refine List.all_eq_true.mpr fun q hq => ?_
  obtain ⟨i, hi⟩ := List.mem_iff_getElem?.mp hq
  exact decide_eq_true (H i q hi).1

theorem DriftsAfter.of_prefix {pairs' : List Pair} (h : pairs' <+: pairs) :
    DriftsAfter n pairs' := by
  intro i q hi
  obtain ⟨rest, rfl⟩ := h
  obtain ⟨hlt, -⟩ := List.getElem?_eq_some_iff.mp hi
  exact H i q (by rw [List.getElem?_append_left hlt, hi])

theorem DriftsAfter.ratio_nonneg : ∀ q ∈ pairs, 0 ≤ Pair.exactRatio q := by
  intro q hq
  obtain ⟨i, hi⟩ := List.mem_iff_getElem?.mp hq
  obtain ⟨hpos, hrealized⟩ := H i q hi
  have hnonneg : 0 ≤ q.realized := by
    split at hrealized
    · omega
    · exact hrealized.1
  rw [Pair.exactRatio]
  positivity

/-- The bad trades are those behind the first `n`. -/
theorem DriftsAfter.countP_bad : pairs.countP bad ≤ pairs.length - n.toNat := by
  have hgood : (pairs.take n.toNat).countP bad = 0 := by
    refine List.countP_eq_zero.mpr fun q hq hbad => ?_
    obtain ⟨i, hi⟩ := List.mem_iff_getElem?.mp hq
    rw [List.getElem?_take] at hi
    split at hi
    · rename_i hlt
      obtain ⟨hpos, hrealized⟩ := H i q hi
      have hi : UInt64.ofNat i < n := by
        rw [UInt64.lt_iff_toNat_lt, UInt64.toNat_ofNat_of_lt' (hlt.trans n.toNat_lt)]
        exact hlt
      rw [if_pos hi] at hrealized
      have hcast : (q.predicted : ℚ) ≠ 0 := by exact_mod_cast hpos.ne'
      rw [bad, Pair.exactRatio, hrealized, div_self hcast] at hbad
      simp at hbad
    · cases hi
  rw [← List.take_append_drop n.toNat pairs, List.countP_append, hgood, Nat.zero_add,
    List.take_append_drop, ← List.length_drop]
  exact List.countP_le_length

/-- Two bad trades halt nothing. -/
theorem DriftsAfter.unhalted (hlen : pairs.length ≤ n.toNat + 2) :
    runToFirstHalt Arith.exact .defaultDualGuard pairs = some none := by
  have hguards : ReconcilePolicy.defaultDualGuard.RatioGuards ⟨1 / 2, 3⟩ ⟨7 / 10, 20⟩ :=
    ⟨rfl, rfl, rfl, rfl, rfl, rfl⟩
  have hbad : pairs.countP bad ≤ 2 := H.countP_bad.trans (by omega)
  have hcast : (pairs.countP bad : ℚ) ≤ 2 := by exact_mod_cast hbad
  have hnever : ReconcilePolicy.defaultDualGuard.NeverHalts (Sequence.entries pairs) := by
    refine neverHalts_of_few_bad hguards (by norm_num) H.positive H.ratio_nonneg ?_ ?_
    · show pairs.countP bad < 3
      omega
    · norm_num
      linarith
  rw [runToFirstHalt_exact]
  exact congrArg some (firstHaltIn_eq_none_iff.mpr hnever)

/-- Three bad trades in a row halt. -/
theorem DriftsAfter.length_le (hn : n.toNat + 3 ≤ 2 ^ 64)
    (h : runToFirstHalt Arith.exact .defaultDualGuard pairs = some none) :
    pairs.length ≤ n.toNat + 2 := by
  by_contra hlen
  have hblock : (pairs.drop n.toNat).take 3 <:+: pairs :=
    (List.take_prefix 3 _).isInfix.trans (List.drop_suffix n.toNat pairs).isInfix
  have hthree : ((pairs.drop n.toNat).take 3).length = 3 := by
    rw [List.length_take, List.length_drop]
    omega
  obtain ⟨q, hq, hhalf⟩ := exists_half_of_window h H.positive hblock hthree
  obtain ⟨i, hi⟩ := List.mem_iff_getElem?.mp hq
  rw [List.getElem?_take, List.getElem?_drop] at hi
  split at hi
  · rename_i hlt
    obtain ⟨-, hrealized⟩ := H _ q hi
    have hge : ¬UInt64.ofNat (n.toNat + i) < n := by
      rw [UInt64.lt_iff_toNat_lt, UInt64.toNat_ofNat_of_lt' (by show n.toNat + i < 2 ^ 64; omega)]
      omega
    rw [if_neg hge] at hrealized
    omega
  · cases hi

end

section
variable {decoder : DriftInjectingDecoder ℚ} {setup : Setup ℚ}

/-- **The injection halts the loop at the third dampened trade**, in exact arithmetic and with the
default guards: on an honest chain, a run that goes on has at most two trades behind the first
`drift_after`, and one that is halted has three. -/
theorem tradingLoop_drift (hpolicy : setup.haltPolicy = .defaultDualGuard)
    (hstart : start.history = .new) (hfactor : decoder.dampingFactor = 3 / 10)
    (hafter : decoder.driftAfter.toNat + 3 ≤ 2 ^ 64) (h : Handler (LoopOp E) σ) (rounds : Nat)
    (s : σ)
    (hhonest : Honest decoder
      (finalBot (injectedResult decoder .exact setup polls h rounds start s 0)).history.pairs
      (injectedProfits decoder .exact setup polls h rounds start s 0)) :
    (∀ bot, injectedResult decoder .exact setup polls h rounds start s 0 = .ok bot →
      bot.history.pairs.length ≤ decoder.driftAfter.toNat + 2) ∧
    ∀ exit, injectedResult decoder .exact setup polls h rounds start s 0 = .error exit →
      exit.bot.history.pairs.length ≤ decoder.driftAfter.toNat + 3 ∧
        ∀ reason, exit.why = .halted reason →
          exit.bot.history.pairs.length = decoder.driftAfter.toNat + 3 := by
  have hrealized := injectedResult_realized decoder .exact setup polls h rounds start s 0
  rw [hstart] at hrealized
  have hdrifts := hhonest.driftsAfter hfactor (injected_trace _ s 0) hrealized
  have hend := tradingLoop_halting (A := .exact) (by rw [hpolicy]; rfl) (by rw [hpolicy]; rfl)
    hstart (decoder.handler .exact h) polls rounds (s, 0)
  change Split _ _ _ (injectedResult decoder .exact setup polls h rounds start s 0) at hend
  generalize injectedResult decoder .exact setup polls h rounds start s 0 = result at hdrifts hend
  refine ⟨?_, ?_⟩
  · rintro bot rfl
    rw [Prog.split_ok, Unhalted, hpolicy] at hend
    exact hdrifts.length_le hafter hend
  · rintro exit rfl
    rw [Prog.split_error] at hend
    change DriftsAfter _ exit.bot.history.pairs at hdrifts
    have hbefore := hend.before
    rw [hpolicy] at hbefore
    have hlen := (hdrifts.of_prefix (List.dropLast_prefix _)).length_le hafter hbefore
    rw [List.length_dropLast] at hlen
    refine ⟨by omega, fun reason hreason => ?_⟩
    by_contra hne
    have hnone := hdrifts.unhalted (by omega)
    have hhalted := (hend.halted hreason).1
    rw [hpolicy] at hhalted
    cases hnone.symm.trans hhalted

/-- A decoder that finds a profit of 100 in every receipt, with the injection after two trades. -/
def sampleDecoder : DriftInjectingDecoder ℚ where
  inner _ _ := .ok ⟨.ofInt 100⟩
  driftAfter := 2
  dampingFactor := 3 / 10

/-- The fifth of seven rounds is the third with a dampened profit. -/
theorem tradingLoop_drift_sample :
    ∃ exit, injectedResult sampleDecoder .exact sampleSetup 1 sampleChain 7 ⟨7, .new⟩ () 0 =
      .error exit ∧ exit.bot.history.pairs.length ≤ 5 := by
  have hhonest : Honest sampleDecoder
      (finalBot (injectedResult sampleDecoder .exact sampleSetup 1 sampleChain 7 ⟨7, .new⟩ ()
        0)).history.pairs
      (injectedProfits sampleDecoder .exact sampleSetup 1 sampleChain 7 ⟨7, .new⟩ () 0) := by
    have hpredicted : ∀ q ∈ (finalBot (injectedResult sampleDecoder .exact sampleSetup 1 sampleChain
        7 ⟨7, .new⟩ () 0)).history.pairs, q.1.val = .ofInt 100 := by
      decide +kernel
    intro i q source profit hi _
    have hq := hpredicted q (List.mem_of_getElem? hi)
    refine ⟨by rw [hq]; rfl, ?_⟩
    rw [Pair.predicted, hq]
    decide
  have hdrift := tradingLoop_drift rfl rfl rfl (by decide) sampleChain 7 () hhonest
  cases hresult :
      injectedResult sampleDecoder .exact sampleSetup 1 sampleChain 7 ⟨7, .new⟩ () 0 with
  | ok bot =>
    have hhalted : haltedPairs (injectedResult sampleDecoder .exact sampleSetup 1 sampleChain 7
        ⟨7, .new⟩ () 0) = some 5 := by decide +kernel
    rw [hresult] at hhalted
    cases hhalted
  | error exit => exact ⟨exit, rfl, (hdrift.2 exit hresult).1⟩

end

end Trading

end Driftbrake
