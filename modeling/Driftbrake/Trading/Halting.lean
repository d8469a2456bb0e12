import Driftbrake.Backtest.Shortening
import Driftbrake.Poller.Burn
import Driftbrake.Trading.Session

/-!
# When the trading loop halts

The loop evaluates its policy only when a profit was realized, with reverts, timeouts and decode
errors in between. For a policy without revert guards, as `default_dual_guard` is, nothing is lost
by that: the loop is halted by the trade at which `run_to_first_halt` halts on the pairs of its
history (`tradingLoop_first_halt`).
-/

namespace Driftbrake

namespace ReconcilePolicy

variable {F : Type} {p : ReconcilePolicy F} {A : Arith F} {history history' : ReconcileHistory}

/-- A policy without revert guards decides by the pairs. -/
theorem evaluate_congr_of_pairs (hb : p.revertBurst = none) (hg : p.revertGas = none)
    (h : history.pairs = history'.pairs) : p.evaluate A history = p.evaluate A history' := by
  apply evaluate_congr
  intro g
  cases g with
  | revertBurst => simp [check, revertBurstCheck, hb]
  | revertGas => exact revertGasCheck_congr (by simp [hg])
  | fast => exact fastCheck_congr (by rw [h])
  | drawdown => exact drawdownCheck_congr fun _ _ => by rw [h]
  | volumeWeighted => exact volumeWeightedCheck_congr fun _ _ => by rw [h]
  | slow => exact slowCheck_congr (by rw [h])

end ReconcilePolicy

section
variable {F : Type} {A : Arith F} {p : ReconcilePolicy F}

theorem pairs_append_eq (history : ReconcileHistory) (sequence : Sequence) :
    (sequence.entries.foldl ReconcileHistory.apply history).pairs = history.pairs ++ sequence := by
  induction sequence generalizing history with
  | nil => exact (List.append_nil _).symm
  | cons pair rest ih =>
    rw [Sequence.entries, List.map_cons, List.foldl_cons]
    refine (ih _).trans ?_
    rw [ReconcileHistory.pairs_apply]
    exact List.append_assoc ..

/-- What a decision after `n` pairs makes of the search. -/
def haltedAt (n : Nat) : HaltDecision F → Option Nat
  | .halt _ => some n
  | .continue => none

/-- What the last pair adds to a search that has not halted on the pairs in front of it. -/
theorem runToFirstHaltFrom_append_singleton {history : ReconcileHistory} {i : Nat}
    {sequence : Sequence} (pair : Pair)
    (h : runToFirstHaltFrom A p history i sequence = some none) :
    runToFirstHaltFrom A p history i (sequence ++ [pair]) =
      (p.evaluate A ((sequence.entries.foldl ReconcileHistory.apply history).append
        pair.1 pair.2)).map (haltedAt (i + sequence.length + 1)) := by
  induction sequence generalizing history i with
  | nil =>
    rw [List.nil_append, runToFirstHaltFrom]
    change _ = (p.evaluate A (history.append pair.1 pair.2)).map (haltedAt (i + 1))
    rcases p.evaluate A (history.append pair.1 pair.2) with _ | _ | reason
    · rfl
    · rfl
    · rfl
  | cons first rest ih =>
    rw [runToFirstHaltFrom] at h
    rw [List.cons_append, runToFirstHaltFrom]
    cases hfirst : p.evaluate A (history.append first.1 first.2) with
    | none =>
      rw [hfirst] at h
      cases h
    | some decision =>
      rw [hfirst] at h
      cases decision with
      | halt reason => cases h
      | «continue» =>
        rw [Option.bind_eq_bind, Option.bind_some] at h ⊢
        rw [ih h, List.length_cons, show i + 1 + rest.length = i + (rest.length + 1) by omega]
        rfl

/-- A search that has not halted has not halted on fewer pairs. -/
theorem runToFirstHaltFrom_of_append {history : ReconcileHistory} {i : Nat}
    {sequence rest : Sequence}
    (h : runToFirstHaltFrom A p history i (sequence ++ rest) = some none) :
    runToFirstHaltFrom A p history i sequence = some none := by
  induction sequence generalizing history i with
  | nil => rfl
  | cons first sequence ih =>
    rw [List.cons_append, runToFirstHaltFrom] at h
    rw [runToFirstHaltFrom]
    cases hfirst : p.evaluate A (history.append first.1 first.2) with
    | none =>
      rw [hfirst] at h
      cases h
    | some decision =>
      rw [hfirst] at h
      cases decision with
      | halt reason => cases h
      | «continue» => exact ih h

/-- The search over the pairs of a history that was extended by one pair. -/
theorem runToFirstHalt_append (hb : p.revertBurst = none) (hg : p.revertGas = none)
    {history : ReconcileHistory} {predicted : PredictedProfit} {realized : RealizedProfit}
    (h : runToFirstHalt A p history.pairs = some none) :
    runToFirstHalt A p (history.append predicted realized).pairs =
      (p.evaluate A (history.append predicted realized)).map
        (haltedAt (history.append predicted realized).pairs.length) := by
  have hpairs : (history.append predicted realized).pairs =
      history.pairs ++ [(predicted, realized)] := rfl
  rw [hpairs, runToFirstHalt, runToFirstHaltFrom_append_singleton (predicted, realized) h,
    List.length_append, List.length_singleton, Nat.zero_add]
  congr 1
  apply ReconcilePolicy.evaluate_congr_of_pairs hb hg
  rw [hpairs]
  change (Sequence.entries history.pairs |>.foldl ReconcileHistory.apply .new).pairs ++ _ = _
  rw [pairs_append_eq]
  rfl

end

namespace Trading

open Prog (Event Does Split)

variable {F E σ : Type} {A : PoolArith F} {setup : Setup F} {polls : Nat} {start bot bot' : Bot}
  {es tr : List (Event (LoopOp E))} {exit : Exit F E}

/-- The policy has not halted on the pairs of the history. -/
def Unhalted (A : PoolArith F) (setup : Setup F) (bot : Bot) : Prop :=
  runToFirstHalt A.toArith setup.haltPolicy bot.history.pairs = some none

/-- What the end of the loop says of the pairs of its history. -/
structure HaltsFirst (A : PoolArith F) (setup : Setup F) (exit : Exit F E) : Prop where
  halted : ∀ {reason}, exit.why = .halted reason →
    runToFirstHalt A.toArith setup.haltPolicy exit.bot.history.pairs =
        some (some exit.bot.history.pairs.length) ∧
      setup.haltPolicy.evaluate A.toArith exit.bot.history = some (.halt reason)
  failed : ∀ {error}, exit.why = .failed error → Unhalted A setup exit.bot
  polling : exit.why = .polling → Unhalted A setup exit.bot
  before : runToFirstHalt A.toArith setup.haltPolicy exit.bot.history.pairs.dropLast = some none

section
variable {t : Trade E} {history : ReconcileHistory}

/-- A trade that was not realized leaves the pairs as they are. -/
theorem pairs_of_unrealized
    (hbooks : t.Booked bot.history history)
    (hrealized : ¬t.Realized) : history.pairs = bot.history.pairs := by
  rw [hbooks.booked]
  cases hresult : t.result with
  | returned outcome =>
    rcases outcome with e | profit | event | e | _
    · rfl
    · exact absurd ⟨profit, hresult⟩ hrealized
    · rfl
    · rfl
    · rfl
  | polling => rfl
  | panicked => rfl

theorem history_of_realized
    (hbooks : t.Booked bot.history history)
    {profit : RealizedProfit} (hresult : t.result = .returned (.ok (.realized profit))) :
    history = bot.history.append t.predicted profit := by
  rw [hbooks.booked, hresult]
  rfl

end

theorem Unhalted.of_pairs (H : Unhalted A setup bot) (h : bot'.history.pairs = bot.history.pairs) :
    Unhalted A setup bot' := by
  rw [Unhalted, h]
  exact H

theorem Unhalted.dropLast (H : Unhalted A setup bot) :
    runToFirstHalt A.toArith setup.haltPolicy bot.history.pairs.dropLast = some none := by
  obtain ⟨rest, hrest⟩ := List.dropLast_prefix bot.history.pairs
  rw [Unhalted, ← hrest] at H
  exact runToFirstHaltFrom_of_append H

theorem HaltsFirst.of_unhalted {why : Stop F E} (hwhy : ∀ reason, why ≠ .halted reason)
    (H : Unhalted A setup bot) : HaltsFirst A setup ⟨why, bot⟩ :=
  ⟨fun h => absurd h (hwhy _), fun _ => H, fun _ => H, H.dropLast⟩

/-- A round that goes on has not halted on its pairs, and one that ends by a halt is the first. -/
theorem Round.halts_first (hb : setup.haltPolicy.revertBurst = none)
    (hg : setup.haltPolicy.revertGas = none) {result : Except (Exit F E) Bot}
    (hbot : Unhalted A setup bot) (H : Round A setup bot es result) :
    Split (fun _ bot => Unhalted A setup bot) (fun _ exit => HaltsFirst A setup exit)
      (tr ++ es) result := by
  cases H with
  | idle => exact hbot
  | broken => exact .of_unhalted (by simp) hbot
  | refused _ _ _ hwhy => exact .of_unhalted hwhy hbot
  | @traded es es' history result t _ _ _ hbooks hdecides =>
    have hrealized (hr : t.Realized) :
        runToFirstHalt A.toArith setup.haltPolicy history.pairs =
          (setup.haltPolicy.evaluate A.toArith history).map (haltedAt history.pairs.length) := by
      obtain ⟨profit, hprofit⟩ := hr
      rw [history_of_realized hbooks hprofit]
      exact runToFirstHalt_append hb hg hbot
    have hbefore (hr : t.Realized) :
        runToFirstHalt A.toArith setup.haltPolicy history.pairs.dropLast = some none := by
      obtain ⟨profit, hprofit⟩ := hr
      rw [history_of_realized hbooks hprofit]
      exact (congrArg _ List.dropLast_concat).trans hbot
    cases hdecides with
    | unrealized _ hr => exact hbot.of_pairs (pairs_of_unrealized hbooks hr)
    | passes hr hdecision =>
      have hsome := hrealized hr
      rw [hdecision] at hsome
      exact hsome
    | @halts reason hr hdecision =>
      have hsome := hrealized hr
      rw [hdecision] at hsome
      refine ⟨fun hwhy => ?_, fun hwhy => ?_, fun hwhy => ?_, hbefore hr⟩
      · cases hwhy
        exact ⟨hsome, hdecision⟩
      · cases hwhy
      · cases hwhy
    | panics hr =>
      refine ⟨fun hwhy => ?_, fun hwhy => ?_, fun hwhy => ?_, hbefore hr⟩
      · cases hwhy
      · cases hwhy
      · cases hwhy
    | unsettled hsettled hwhy =>
      have hr : ¬t.Realized := fun ⟨profit, hprofit⟩ => hsettled ⟨_, hprofit⟩
      exact .of_unhalted hwhy (hbot.of_pairs (pairs_of_unrealized hbooks hr))

/-- Wherever a run has ended, the policy has not halted on the pairs in front of the last one. -/
theorem unhalted_before_last {result : Except (Exit F E) Bot}
    (H : Split (fun _ bot => Unhalted A setup bot) (fun _ exit => HaltsFirst A setup exit)
      tr result) :
    runToFirstHalt A.toArith setup.haltPolicy (finalBot result).history.pairs.dropLast =
      some none := by
  cases result with
  | ok bot => exact Unhalted.dropLast H
  | error exit => exact HaltsFirst.before H

theorem tradingLoop_halting (hb : setup.haltPolicy.revertBurst = none)
    (hg : setup.haltPolicy.revertGas = none) (hstart : start.history = .new)
    (h : Handler (LoopOp E) σ) (polls rounds : Nat) (s : σ) :
    Split (fun _ bot => Unhalted A setup bot) (fun _ exit => HaltsFirst A setup exit)
      (loopEvents A setup polls h rounds start s) (loopResult A setup polls h rounds start s) := by
  have hunhalted : Unhalted A setup start := by
    rw [Unhalted, hstart]
    rfl
  exact tradingLoop_does (fun hI H => H.halts_first hb hg hI) hunhalted rounds s

/-- **The loop halts at the first trade at which the policy halts on its pairs**, and not before or
after: a run that goes on, or ends by an error, has pairs on which `run_to_first_halt` finds no
halt, and one that is halted has pairs of which it finds the last. -/
theorem tradingLoop_first_halt (hb : setup.haltPolicy.revertBurst = none)
    (hg : setup.haltPolicy.revertGas = none) (hstart : start.history = .new)
    (h : Handler (LoopOp E) σ) (rounds : Nat) (s : σ) :
    (∀ bot, loopResult A setup polls h rounds start s = .ok bot → Unhalted A setup bot) ∧
      ∀ exit, loopResult A setup polls h rounds start s = .error exit →
        HaltsFirst A setup exit := by
  have hend := tradingLoop_halting (A := A) hb hg hstart h polls rounds s
  refine ⟨fun bot hbot => ?_, fun exit hexit => ?_⟩
  · rw [hbot] at hend
    exact hend
  · rw [hexit] at hend
    exact hend

/-! ### A run that is halted -/

/-- The setup of `main` on the default chain. -/
def sampleSetup : Setup ℚ where
  keccak256 _ := Vector.replicate 32 0
  overflowChecks := true
  caller := Vector.replicate 20 0
  chainId := 11155111
  gasPrice := .ofNat 20000000000
  blockTimeMs := 12000
  pollerConfig := ReconcilePolicy.mainnetPoller
  haltPolicy := .defaultDualGuard

def sampleReply (words : List Nat) : Except SimError RawSimOutput :=
  .ok ⟨words.flatMap fun word => encodeU256 (.ofNat word), 21000, none, []⟩

/-- A chain on which every trade is predicted to earn 100 and earns 10. -/
def sampleChain : Handler (LoopOp Unit) Unit where
  step
    | .simulate tx, _ =>
      (if tx.toAddr = poolA then sampleReply [1000, 2000]
        else if tx.toAddr = poolB then sampleReply [1000, 3000]
        else sampleReply [100], ())
    | .submit _, _ => (.ok (Vector.replicate 32 1), ())
    | .now, _ => (0, ())
    | .getReceipt txHash, _ => (.ok (some (⟨txHash, 1, .confirmed, 0, .ofNat 0⟩, [])), ())
    | .decodeRealized _ _, _ => (.ok ⟨.ofInt 10⟩, ())
    | .sleep _, _ => ((), ())

def sampleRun : Except (Exit ℚ Unit) Bot :=
  loopResult PoolArith.exact sampleSetup 1 sampleChain 5 ⟨7, .new⟩ ()

/-- The number of pairs of a run that was halted. -/
def haltedPairs : Except (Exit ℚ Unit) Bot → Option Nat
  | .error ⟨.halted _, bot⟩ => some bot.history.pairs.length
  | _ => none

/-- The third of five rounds is the first at which the policy halts. -/
theorem tradingLoop_first_halt_sample : ∃ exit, sampleRun = .error exit ∧
    runToFirstHalt Arith.exact .defaultDualGuard exit.bot.history.pairs = some (some 3) := by
  have hpairs : haltedPairs sampleRun = some 3 := by decide +kernel
  cases hrun : sampleRun with
  | ok bot =>
    rw [hrun] at hpairs
    cases hpairs
  | error exit =>
    have hfirst : HaltsFirst PoolArith.exact sampleSetup exit :=
      (tradingLoop_first_halt rfl rfl rfl sampleChain 5 ()).2 exit hrun
    obtain ⟨why, bot⟩ := exit
    rw [hrun] at hpairs
    cases why with
    | halted reason =>
      have hlen : bot.history.pairs.length = 3 := Option.some.inj hpairs
      refine ⟨_, rfl, (hfirst.halted rfl).1.trans ?_⟩
      rw [hlen]
    | failed error => cases hpairs
    | panicked => cases hpairs
    | polling => cases hpairs

/-! ## What a run can lose -/

/-- The pairs of a history come from profitable simulations. -/
theorem Session.positive {ts : List (Trade E)} (H : Session setup start tr ts bot)
    (hstart : start.history.pairs.all positive) : bot.history.pairs.all positive := by
  induction H with
  | start => exact hstart
  | quiet _ _ ih => exact ih
  | @trade tr ts bot history t _ _ _ hbooks ih =>
    by_cases hr : t.Realized
    · obtain ⟨profit, hprofit⟩ := hr
      rw [history_of_realized hbooks hprofit]
      simp [ReconcileHistory.append, ih, Driftbrake.positive, t.profitable]
    · rw [pairs_of_unrealized hbooks hr]
      exact ih

/-- A search without a halt is a run that is never halted. -/
theorem neverHalts_of_runToFirstHalt {p : ReconcilePolicy ℚ} {sequence : Sequence}
    (h : runToFirstHalt Arith.exact p sequence = some none) : p.NeverHalts sequence.entries := by
  rw [runToFirstHalt_exact] at h
  exact firstHaltIn_eq_none_iff.mp (Option.some.inj h)

theorem positivePairs_entries {sequence : Sequence} (h : sequence.all positive) :
    positivePairs sequence.entries = sequence := by
  have hpairs : pairsOf sequence.entries = sequence := by
    rw [pairsOf, Sequence.entries, List.filterMap_map]
    exact List.filterMap_some
  rw [positivePairs, hpairs]
  exact List.filter_eq_self.mpr (List.all_eq_true.mp h)

/-- Three trades in a row on which the default guards have not halted. -/
theorem exists_half_of_window {sequence : Sequence}
    (h : runToFirstHalt Arith.exact .defaultDualGuard sequence = some none)
    (hpos : sequence.all positive) {block : List Pair} (hblock : block <:+: sequence)
    (hlen : block.length = 3) : ∃ q ∈ block, Pair.predicted q ≤ 2 * Pair.realized q := by
  rw [← positivePairs_entries hpos] at hblock
  obtain ⟨q, hq, hratio⟩ := (neverHalts_of_runToFirstHalt h).fast_window hblock hlen
  have hqpos : 0 < q.predicted := predicted_pos_of_mem (hblock.subset hq)
  have hcast : (0 : ℚ) < q.predicted := by exact_mod_cast hqpos
  have hhalf : (1 / 2 : ℚ) ≤ q.realized / q.predicted := hratio
  rw [le_div_iff₀ hcast] at hhalf
  have hdouble : (q.predicted : ℚ) ≤ 2 * q.realized := by linarith
  exact ⟨q, hq, by exact_mod_cast hdouble⟩

/-- The realized trades of a run in front of the last one. -/
def tradesBeforeLast (result : Except (Exit F E) Bot) : List Pair :=
  (finalBot result).history.pairs.dropLast

/-- **What a run with the default guards can lose**, in exact arithmetic: of the trades in front of
the last one, any three in a row have one that realizes half of its prediction, and any `20 * m` in
a row realize 70 percent in the mean. -/
theorem tradingLoop_exposure {A : PoolArith ℚ} {setup : Setup ℚ} (hA : A.toArith = Arith.exact)
    (hpolicy : setup.haltPolicy = .defaultDualGuard) (hstart : start.history = .new)
    (h : Handler (LoopOp E) σ) (rounds : Nat) (s : σ) :
    (∀ q ∈ (finalBot (loopResult A setup polls h rounds start s)).history.pairs,
      0 < Pair.predicted q) ∧
    (∀ block, block <:+: tradesBeforeLast (loopResult A setup polls h rounds start s) →
      block.length = 3 → ∃ q ∈ block, Pair.predicted q ≤ 2 * Pair.realized q) ∧
    ∀ m block, block <:+: tradesBeforeLast (loopResult A setup polls h rounds start s) →
      block.length = m * 20 → (14 * m : ℚ) ≤ ratioSum block := by
  have hpositive : (finalBot (loopResult A setup polls h rounds start s)).history.pairs.all
      positive := by
    obtain ⟨ts, hts⟩ := tradingLoop_ended (A := A) h rounds s
    obtain ⟨tr', -, hsession⟩ := hts.session
    exact hsession.positive (by rw [hstart]; rfl)
  have hend := tradingLoop_halting (A := A) (by rw [hpolicy]; rfl) (by rw [hpolicy]; rfl) hstart h
    polls rounds s
  generalize loopResult A setup polls h rounds start s = result at hpositive hend ⊢
  have hbefore : runToFirstHalt Arith.exact .defaultDualGuard (tradesBeforeLast result) =
      some none := by
    rw [← hA, ← hpolicy]
    exact unhalted_before_last hend
  have htrades : (tradesBeforeLast result).all positive := by
    rw [List.all_eq_true] at hpositive ⊢
    exact fun q hq => hpositive q (List.mem_of_mem_dropLast hq)
  refine ⟨fun q hq => ?_, fun block hblock hlen => ?_, fun m block hblock hlen => ?_⟩
  · exact of_decide_eq_true (List.all_eq_true.mp hpositive q hq)
  · exact exists_half_of_window hbefore htrades hblock hlen
  · rw [← positivePairs_entries htrades] at hblock
    have hmean := (neverHalts_of_runToFirstHalt hbefore).slow_block hblock hlen
    have hwindow : (ReconcilePolicy.defaultDualGuard.slow.window : ℚ) = 20 := rfl
    have hthreshold : ReconcilePolicy.defaultDualGuard.slow.threshold = 7 / 10 := rfl
    rw [hwindow, hthreshold] at hmean
    linarith

/-- In the run that is halted, two trades stand in front of the last one. -/
theorem tradingLoop_exposure_sample : (tradesBeforeLast sampleRun).length = 2 ∧
    (∀ q ∈ (finalBot sampleRun).history.pairs, 0 < Pair.predicted q) ∧
    ∀ block, block <:+: tradesBeforeLast sampleRun → block.length = 3 →
      ∃ q ∈ block, Pair.predicted q ≤ 2 * Pair.realized q := by
  obtain ⟨hpos, hblocks⟩ : (∀ q ∈ (finalBot sampleRun).history.pairs, 0 < Pair.predicted q) ∧
      (∀ block, block <:+: tradesBeforeLast sampleRun → block.length = 3 →
        ∃ q ∈ block, Pair.predicted q ≤ 2 * Pair.realized q) ∧
      ∀ m block, block <:+: tradesBeforeLast sampleRun → block.length = m * 20 →
        (14 * m : ℚ) ≤ ratioSum block :=
    tradingLoop_exposure rfl rfl rfl sampleChain 5 ()
  exact ⟨by decide +kernel, hpos, hblocks.1⟩

end Trading

end Driftbrake
