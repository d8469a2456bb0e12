import Driftbrake.Backtest.Sweep

/-!
# The batch engine of the Python bindings

`run_sweep_raw` evaluates every point of a parameter grid on one data set of trade rows. An array
access out of range, a failed assertion of a constructor and an integer overflow are panics
(`none`); a length mismatch is the `PyValueError` of the source. In exact arithmetic the row loop
counts the rows at which a fresh policy halts and remembers the first (`sweepRows_exact`).
-/

namespace Driftbrake

structure TradeRows where
  predicted : List I128
  realized : List I128
  isRevert : List Bool
  gasUsed : List UInt64
  gasPrice : List U128

structure BatchResult (F : Type) where
  fastThreshold : F
  fastWindow : Nat
  slowThreshold : F
  slowWindow : Nat
  revertLimit : Nat
  totalHalts : Nat
  firstHaltIndex : Option Nat
  totalDrawdownPrevented : Int
deriving DecidableEq, Repr

/-- The variables of the row loop. -/
structure RowState where
  history : ReconcileHistory
  totalHalts : Nat
  firstHaltIndex : Option Nat
  totalDrawdown : Int

def RowState.init : RowState := ⟨.new, 0, none, 0⟩

namespace TradeRows

variable {F : Type}

/-- The revert recorded for row `i`; rows without gas data get the defaults. -/
def revertEvent (rows : TradeRows) (i : Nat) : RevertEvent where
  txHash := Vector.replicate 32 0
  blockNumber := .ofNat i
  reason := none
  gasUsed := if h : i < rows.gasUsed.length then rows.gasUsed[i] else 21000
  effectiveGasPrice := if h : i < rows.gasPrice.length then rows.gasPrice[i] else .ofNat 0

/-- The operation of row `i`, applied to the history. -/
def pushRow (rows : TradeRows) (history : ReconcileHistory) (i : Nat) :
    Option ReconcileHistory := do
  if ← rows.isRevert[i]? then some (history.recordRevert (rows.revertEvent i))
  else
    let predicted ← rows.predicted[i]?
    let realized ← rows.realized[i]?
    some (history.append ⟨predicted⟩ ⟨realized⟩)

/-- What a halt on row `i` adds to `total_drawdown`. -/
def addDrawdown (rows : TradeRows) (A : Arith F) (totalDrawdown : Int) (i : Nat) : Option Int := do
  if ← rows.isRevert[i]? then some totalDrawdown
  else
    let predicted ← rows.predicted[i]?
    let realized ← rows.realized[i]?
    if realized.toInt < predicted.toInt then
      let loss ← A.subI128 predicted.toInt realized.toInt
      A.addI128 totalDrawdown loss
    else some totalDrawdown

/-- The body of the row loop. -/
def sweepRow (rows : TradeRows) (A : Arith F) (policy : ReconcilePolicy F) (s : RowState)
    (i : Nat) : Option RowState := do
  let history ← rows.pushRow s.history i
  match ← policy.evaluate A history with
  | .continue => some { s with history }
  | .halt _ =>
    let totalDrawdown ← rows.addDrawdown A s.totalDrawdown i
    some {
      history
      totalHalts := s.totalHalts + 1
      firstHaltIndex := if s.firstHaltIndex.isNone then some i else s.firstHaltIndex
      totalDrawdown }

def sweepRows (rows : TradeRows) (A : Arith F) (policy : ReconcilePolicy F) (rowCount : Nat) :
    Option RowState :=
  (List.range rowCount).foldlM (rows.sweepRow A policy) .init

/-- The policy of a grid point. -/
def pointPolicy (A : Arith F) (debugAssertions : Bool) (fastT slowT : F) (revLim : Nat) :
    Option (ReconcilePolicy F) := do
  let policy ← ReconcilePolicy.new A debugAssertions ⟨fastT, 3⟩ ⟨slowT, 20⟩
  policy.withRevertBurst ⟨revLim⟩

def sweepPoint (rows : TradeRows) (A : Arith F) (debugAssertions : Bool) (fastT slowT : F)
    (revLim : Nat) : Option (BatchResult F) := do
  let policy ← pointPolicy A debugAssertions fastT slowT revLim
  let s ← rows.sweepRows A policy rows.predicted.length
  some {
    fastThreshold := fastT
    fastWindow := 3
    slowThreshold := slowT
    slowWindow := 20
    revertLimit := revLim
    totalHalts := s.totalHalts
    firstHaltIndex := s.firstHaltIndex
    totalDrawdownPrevented := s.totalDrawdown }

/-- The grid points in nested order; a point with `fast_t >= slow_t` is skipped. -/
def gridPoints (A : Arith F) (fastThresholds slowThresholds : List F) (revertLimits : List Nat) :
    List (F × F × Nat) :=
  fastThresholds.flatMap fun fastT =>
    (slowThresholds.filter fun slowT => !A.le slowT fastT).flatMap fun slowT =>
      revertLimits.map fun revLim => (fastT, slowT, revLim)

def runSweepRaw (rows : TradeRows) (A : Arith F) (debugAssertions : Bool)
    (fastThresholds slowThresholds : List F) (revertLimits : List Nat) :
    Option (Except String (List (BatchResult F))) :=
  if rows.realized.length ≠ rows.predicted.length ∨
      rows.isRevert.length ≠ rows.predicted.length then
    some (.error "Array lengths for predicted, realized, and is_revert must match")
  else do
    let results ← (gridPoints A fastThresholds slowThresholds revertLimits).mapM fun point =>
      rows.sweepPoint A debugAssertions point.1 point.2.1 point.2.2
    some (.ok results)

/-! ## The row loop in exact arithmetic -/

/-- The operation of row `i`. -/
def entry (rows : TradeRows) (i : Nat) : HistoryEntry :=
  if rows.isRevert.getD i false then .revertedTx (rows.revertEvent i)
  else .confirmedPair ⟨rows.predicted.getD i (.ofInt 0)⟩ ⟨rows.realized.getD i (.ofInt 0)⟩

/-- The operations of all rows. -/
def entries (rows : TradeRows) : List HistoryEntry :=
  (List.range rows.predicted.length).map rows.entry

/-- The three arrays have one length, what `run_sweep_raw` checks. -/
def Matching (rows : TradeRows) : Prop :=
  rows.realized.length = rows.predicted.length ∧ rows.isRevert.length = rows.predicted.length

variable {rows : TradeRows} {p : ReconcilePolicy ℚ} {i : Nat}

theorem getElem?_predicted (hi : i < rows.predicted.length) :
    rows.predicted[i]? = some (rows.predicted.getD i (.ofInt 0)) := by
  simp [hi]

section
variable (hm : rows.Matching) (hi : i < rows.predicted.length)
include hm hi

theorem getElem?_isRevert : rows.isRevert[i]? = some (rows.isRevert.getD i false) := by
  simp [hm.2, hi]

theorem getElem?_realized : rows.realized[i]? = some (rows.realized.getD i (.ofInt 0)) := by
  simp [hm.1, hi]

theorem pushRow_eq (history : ReconcileHistory) :
    rows.pushRow history i = some (history.apply (rows.entry i)) := by
  rw [pushRow, entry, getElem?_isRevert hm hi, getElem?_predicted hi, getElem?_realized hm hi]
  cases rows.isRevert.getD i false <;> rfl

theorem addDrawdown_exact (total : Int) :
    ∃ total', rows.addDrawdown Arith.exact total i = some total' := by
  rw [addDrawdown, getElem?_isRevert hm hi, getElem?_predicted hi, getElem?_realized hm hi]
  cases rows.isRevert.getD i false with
  | true => exact ⟨total, rfl⟩
  | false =>
    simp only [Option.bind_eq_bind, Option.bind_some, Bool.false_eq_true, if_false]
    split
    · exact ⟨_, rfl⟩
    · exact ⟨_, rfl⟩

/-- One row: its operation is applied, and a halt is counted. -/
theorem sweepRow_exact {es : List HistoryEntry} {s : RowState} (hs : s.history = .ofEntries es) :
    ∃ s', rows.sweepRow Arith.exact p s i = some s' ∧
      s'.history = .ofEntries (es ++ [rows.entry i]) ∧
      (p.Halts Arith.exact s'.history → s'.totalHalts = s.totalHalts + 1 ∧
        s'.firstHaltIndex = s.firstHaltIndex.or (some i)) ∧
      (¬p.Halts Arith.exact s'.history → s'.totalHalts = s.totalHalts ∧
        s'.firstHaltIndex = s.firstHaltIndex) := by
  obtain ⟨d, hd⟩ := p.evaluate_exact_isSome (es ++ [rows.entry i])
  rw [sweepRow, pushRow_eq hm hi, hs, ← ReconcileHistory.ofEntries_append_singleton,
    Option.bind_eq_bind, Option.bind_some, hd, Option.bind_eq_bind, Option.bind_some]
  cases d with
  | «continue» =>
    refine ⟨_, rfl, rfl, fun ⟨r, hr⟩ => ?_, fun _ => ⟨rfl, rfl⟩⟩
    rw [hd] at hr
    cases hr
  | halt r =>
    obtain ⟨total', htotal⟩ := addDrawdown_exact hm hi s.totalDrawdown
    rw [htotal]
    refine ⟨_, rfl, rfl, fun _ => ⟨rfl, ?_⟩, fun hno => absurd ⟨r, hd⟩ hno⟩
    cases s.firstHaltIndex <;> rfl

end

theorem entries_take {n : Nat} (hn : n ≤ rows.predicted.length) :
    rows.entries.take n = (List.range n).map rows.entry := by
  rw [entries, ← List.map_take, List.take_range, min_eq_left hn]

/-- The row loop counts the rows at which the policy halts and remembers the first of them. -/
theorem sweepRows_exact (hm : rows.Matching) (p : ReconcilePolicy ℚ) {n : Nat}
    (hn : n ≤ rows.predicted.length) :
    ∃ s, rows.sweepRows Arith.exact p n = some s ∧ s.history = .ofEntries (rows.entries.take n) ∧
      s.totalHalts = (List.range n).countP (Halting p rows.entries) ∧
      s.firstHaltIndex = (List.range n).find? (Halting p rows.entries) := by
  induction n with
  | zero => exact ⟨.init, rfl, rfl, rfl, rfl⟩
  | succ n ih =>
    obtain ⟨s, hrun, hh, hc, hf⟩ := ih (by omega)
    obtain ⟨s', hrow, hh', hhalt, hno⟩ := sweepRow_exact (p := p) hm (i := n) (by omega) hh
    have hnext : rows.entries.take n ++ [rows.entry n] = rows.entries.take (n + 1) := by
      rw [entries_take (by omega), entries_take hn, List.range_succ, List.map_append,
        List.map_singleton]
    rw [hnext] at hh'
    have hhalting : Halting p rows.entries n = decide (p.Halts Arith.exact s'.history) := by
      rw [Halting, hh']
    refine ⟨s', ?_, hh', ?_, ?_⟩
    · rw [sweepRows, List.range_succ, List.foldlM_append]
      rw [sweepRows] at hrun
      rw [hrun]
      simp [hrow]
    · rw [List.range_succ, List.countP_append, ← hc, List.countP_singleton, hhalting]
      by_cases h : p.Halts Arith.exact s'.history
      · simp [h, hhalt h]
      · simp [h, hno h]
    · rw [List.range_succ, List.find?_append, ← hf, List.find?_singleton, hhalting]
      by_cases h : p.Halts Arith.exact s'.history
      · simp [h, hhalt h]
      · simp [h, hno h]

end TradeRows

end Driftbrake
