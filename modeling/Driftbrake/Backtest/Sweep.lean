import Driftbrake.Reconcile.Spec

/-!
# The benchmark sweep

`run_to_first_halt` and the sweep of the `benchmark` crate. `Halting p ops i` says that the policy
halts after operation `i` of the sequence (counted from 0), on the history of operations `0..=i`;
`runToFirstHalt` searches for the first such `i` (`runToFirstHalt_exact`). So it does in every
arithmetic for a policy that never panics (`runToFirstHalt_of_total`).
-/

namespace Driftbrake

/-- The policy halts on the history of the first `i + 1` operations. -/
def Halting (p : ReconcilePolicy ℚ) (ops : List HistoryEntry) (i : Nat) : Bool :=
  decide (p.Halts Arith.exact (.ofEntries (ops.take (i + 1))))

theorem halting_iff {p : ReconcilePolicy ℚ} {ops : List HistoryEntry} {i : Nat} :
    Halting p ops i ↔ p.Halts Arith.exact (.ofEntries (ops.take (i + 1))) :=
  decide_eq_true_iff

/-- `Sequence`, the pairs of one simulated strategy. -/
abbrev Sequence := List Pair

def Sequence.entries (sequence : Sequence) : List HistoryEntry :=
  sequence.map fun pair => .confirmedPair pair.1 pair.2

variable {F : Type}

/-- The loop of `run_to_first_halt`, from the iteration `i` on. -/
def runToFirstHaltFrom (A : Arith F) (policy : ReconcilePolicy F) (history : ReconcileHistory)
    (i : Nat) : Sequence → Option (Option Nat)
  | [] => some none
  | (predicted, realized) :: rest => do
    let history := history.append predicted realized
    match ← policy.evaluate A history with
    | .halt _ => some (some (i + 1))
    | .continue => runToFirstHaltFrom A policy history (i + 1) rest

/-- The 1-based count of pairs at which the policy first halts; the outer `none` is a panic. -/
def runToFirstHalt (A : Arith F) (policy : ReconcilePolicy F) (sequence : Sequence) :
    Option (Option Nat) :=
  runToFirstHaltFrom A policy .new 0 sequence

/-- One point of the sweep. Its rates are made of the counts `falseHalts` and `missed`. -/
structure SweepResult (F : Type) where
  fast : FastGuardConfig F
  slow : SlowGuardConfig F
  falseHaltRate : F
  missedCatchRate : F
  meanTimeToCatch : Option F

section
variable (A : Arith F) (debugAssertions : Bool) (fast : FastGuardConfig F)
  (slow : SlowGuardConfig F)

/-- A fresh policy run on one sequence. -/
def firstHaltOf (sequence : Sequence) : Option (Option Nat) := do
  let policy ← ReconcilePolicy.new A debugAssertions fast slow
  runToFirstHalt A policy sequence

def falseHalts (healthyBatch : List Sequence) : Option Nat := do
  let outcomes ← healthyBatch.mapM (firstHaltOf A debugAssertions fast slow)
  some (outcomes.countP (·.isSome))

def catchTimes (driftedBatch : List Sequence) : Option (List Nat) := do
  let outcomes ← driftedBatch.mapM (firstHaltOf A debugAssertions fast slow)
  some (outcomes.filterMap id)

def missed (driftedBatch : List Sequence) : Option Nat := do
  let catchTimes ← catchTimes A debugAssertions fast slow driftedBatch
  some (driftedBatch.length - catchTimes.length)

def sweepPoint (healthyBatch driftedBatch : List Sequence) : Option (SweepResult F) := do
  let falseHalts ← falseHalts A debugAssertions fast slow healthyBatch
  let catchTimes ← catchTimes A debugAssertions fast slow driftedBatch
  let missed ← missed A debugAssertions fast slow driftedBatch
  some {
    fast, slow
    falseHaltRate := A.div (A.ofUsize falseHalts) (A.ofUsize healthyBatch.length)
    missedCatchRate := A.div (A.ofUsize missed) (A.ofUsize driftedBatch.length)
    meanTimeToCatch :=
      if catchTimes.isEmpty then none
      else some (A.div (A.ofUsize catchTimes.sum) (A.ofUsize catchTimes.length)) }

end

def sweep (A : Arith F) (debugAssertions : Bool) (healthyBatch driftedBatch : List Sequence)
    (grid : List (FastGuardConfig F × SlowGuardConfig F)) : Option (List (SweepResult F)) :=
  grid.mapM fun point => sweepPoint A debugAssertions point.1 point.2 healthyBatch driftedBatch

/-! ## The first halt -/

theorem take_length_append_cons (es es' : List HistoryEntry) (e : HistoryEntry) :
    (es ++ e :: es').take (es.length + 1) = es ++ [e] := by
  rw [List.take_length_add_append]
  rfl

/-- The policy panics on no sequence of operations. -/
def ReconcilePolicy.Total (p : ReconcilePolicy F) (A : Arith F) : Prop :=
  ∀ ops, ∃ d, p.evaluate A (.ofEntries ops) = some d

/-- The policy halts after operation `i`, in the arithmetic `A`. -/
def HaltingAt (A : Arith F) (p : ReconcilePolicy F) (ops : List HistoryEntry) (i : Nat) : Bool :=
  decide (p.Halts A (.ofEntries (ops.take (i + 1))))

/-- The 1-based count of pairs after which the policy first halts. -/
def firstHaltAt (A : Arith F) (p : ReconcilePolicy F) (sequence : Sequence) : Option Nat :=
  ((List.range sequence.length).find? (HaltingAt A p sequence.entries)).map (· + 1)

section
variable {A : Arith F} {p : ReconcilePolicy F}

theorem haltingAt_iff {ops : List HistoryEntry} {i : Nat} :
    HaltingAt A p ops i ↔ p.Halts A (.ofEntries (ops.take (i + 1))) :=
  decide_eq_true_iff

theorem runToFirstHaltFrom_of_total (h : p.Total A) (es : List HistoryEntry) (rest : Sequence) :
    runToFirstHaltFrom A p (.ofEntries es) es.length rest =
      some (((List.range' es.length rest.length).find? (HaltingAt A p (es ++ rest.entries))).map
        (· + 1)) := by
  induction rest generalizing es with
  | nil => rfl
  | cons pair rest ih =>
    obtain ⟨predicted, realized⟩ := pair
    have hstep : (ReconcileHistory.ofEntries es).append predicted realized =
        .ofEntries (es ++ [.confirmedPair predicted realized]) :=
      (ReconcileHistory.ofEntries_append_singleton es (.confirmedPair predicted realized)).symm
    have htake : (es ++ Sequence.entries ((predicted, realized) :: rest)).take (es.length + 1) =
        es ++ [.confirmedPair predicted realized] := take_length_append_cons ..
    rw [runToFirstHaltFrom, hstep, List.length_cons, List.range'_succ, List.find?_cons]
    obtain ⟨d, hd⟩ := h (es ++ [.confirmedPair predicted realized])
    rw [hd, Option.bind_eq_bind, Option.bind_some]
    cases d with
    | halt r =>
      have hh : HaltingAt A p (es ++ Sequence.entries ((predicted, realized) :: rest))
          es.length := by
        rw [haltingAt_iff, htake]
        exact ⟨r, hd⟩
      rw [hh]
      rfl
    | «continue» =>
      have hh : HaltingAt A p (es ++ Sequence.entries ((predicted, realized) :: rest)) es.length
          = false := by
        rw [Bool.eq_false_iff, Ne, haltingAt_iff, htake]
        rintro ⟨r, hr⟩
        rw [hd] at hr
        cases hr
      rw [hh]
      have := ih (es ++ [.confirmedPair predicted realized])
      rw [List.length_append, List.length_singleton, List.append_assoc] at this
      exact this

theorem runToFirstHalt_of_total (h : p.Total A) (sequence : Sequence) :
    runToFirstHalt A p sequence = some (firstHaltAt A p sequence) := by
  rw [firstHaltAt, List.range_eq_range']
  exact runToFirstHaltFrom_of_total h [] sequence

variable {debugAssertions : Bool} {fast : FastGuardConfig F} {slow : SlowGuardConfig F}

theorem firstHaltOf_of_total (hp : ReconcilePolicy.new A debugAssertions fast slow = some p)
    (h : p.Total A) (sequence : Sequence) :
    firstHaltOf A debugAssertions fast slow sequence = some (firstHaltAt A p sequence) := by
  rw [firstHaltOf, hp, Option.bind_eq_bind, Option.bind_some, runToFirstHalt_of_total h]

theorem mapM_firstHaltOf (hp : ReconcilePolicy.new A debugAssertions fast slow = some p)
    (h : p.Total A) (batch : List Sequence) :
    batch.mapM (firstHaltOf A debugAssertions fast slow) = some (batch.map (firstHaltAt A p)) :=
  mapM_eq_some_map fun sequence _ => firstHaltOf_of_total hp h sequence

theorem missed_of_total (hp : ReconcilePolicy.new A debugAssertions fast slow = some p)
    (h : p.Total A) (batch : List Sequence) :
    missed A debugAssertions fast slow batch =
      some (batch.length - batch.countP fun s => (firstHaltAt A p s).isSome) := by
  rw [missed, catchTimes, mapM_firstHaltOf hp h]
  simp only [Option.bind_eq_bind, Option.bind_some, List.length_filterMap_eq_countP,
    List.countP_map]
  rfl

end

/-- Exact arithmetic never panics. -/
theorem ReconcilePolicy.total_exact (p : ReconcilePolicy ℚ) : p.Total Arith.exact :=
  p.evaluate_exact_isSome

/-- In exact arithmetic `run_to_first_halt` finds the first pair on whose history the policy
halts. -/
theorem runToFirstHalt_exact (p : ReconcilePolicy ℚ) (sequence : Sequence) :
    runToFirstHalt Arith.exact p sequence =
      some (((List.range sequence.length).find? (Halting p sequence.entries)).map (· + 1)) :=
  runToFirstHalt_of_total p.total_exact sequence

end Driftbrake
