import Driftbrake.Backtest.Tightening
import Driftbrake.Reconcile.Views
import Mathlib.Data.List.ProdSigma

/-!
# The two backtesters

`run_sweep_raw` counts rows from 0, goes on after a halt and adds a revert-burst guard to every grid
point; `run_to_first_halt` counts pairs from 1, stops at the first halt and has no such guard. Both
find the rows at which a fresh policy halts, and on data without reverts the burst guard never
trips, so they find the same first one (`backtesters_agree`).
-/

namespace Driftbrake

open ReconcilePolicy

/-! ## The burst guard on data without reverts -/

/-- Two policies with the same ratio guards, one of them with a revert-burst guard. -/
structure AddsBurst (p q : ReconcilePolicy ℚ) : Prop where
  fast : q.fast = p.fast
  slow : q.slow = p.slow
  others : p.revertBurst = none ∧ p.revertGas = none ∧ p.volumeWeighted = none ∧ p.drawdown = none
  others' : q.revertGas = none ∧ q.volumeWeighted = none ∧ q.drawdown = none

variable {p q : ReconcilePolicy ℚ} {ops : List HistoryEntry}

theorem not_burst_of_no_reverts (p : ReconcilePolicy ℚ) (h : ∀ e ∈ ops, e.isRevert = false) :
    ¬p.Condition ops .revertBurst := by
  rintro ⟨c, hc, hlen, hall⟩
  have hpos := p.revertBurst_pos hc
  have hne : ops.rtake c.limit ≠ [] := by
    apply List.ne_nil_of_length_pos
    rw [length_rtake]
    omega
  obtain ⟨e, he⟩ := List.exists_mem_of_ne_nil _ hne
  have hrevert := hall e he
  rw [h e (mem_of_mem_rtake he)] at hrevert
  cases hrevert

theorem AddsBurst.condition_iff (H : AddsBurst p q) (h : ∀ e ∈ ops, e.isRevert = false)
    {g : Guard} : q.Condition ops g ↔ p.Condition ops g := by
  obtain ⟨hb, hg, hv, hd⟩ := H.others
  obtain ⟨hg', hv', hd'⟩ := H.others'
  cases g with
  | revertBurst => exact iff_of_false (not_burst_of_no_reverts q h) (not_burst_of_no_reverts p h)
  | revertGas => simp [Condition, hg, hg']
  | fast => rw [Condition, Condition, H.fast]
  | drawdown => simp [Condition, hd, hd']
  | volumeWeighted => simp [Condition, hv, hv']
  | slow => rw [Condition, Condition, H.slow]

theorem AddsBurst.halting_eq (H : AddsBurst p q) (h : ∀ e ∈ ops, e.isRevert = false) (i : Nat) :
    Halting q ops i = Halting p ops i := by
  have hpre : ∀ e ∈ ops.take (i + 1), e.isRevert = false := fun e he =>
    h e (List.mem_of_mem_take he)
  rw [Bool.eq_iff_iff, halting_iff, halting_iff, halts_iff, halts_iff]
  exact exists_congr fun _ => H.condition_iff hpre

/-! ## The grid -/

theorem gridPoints_exact (fasts slows : List ℚ) (limits : List Nat) :
    TradeRows.gridPoints Arith.exact fasts slows limits =
      (fasts ×ˢ slows ×ˢ limits).filter fun x => x.1 < x.2.1 := by
  have hslows : ∀ fast : ℚ,
      (slows.filter fun slow => !Arith.exact.le slow fast).flatMap
        (fun slow => limits.map fun limit => (fast, slow, limit)) =
      ((slows ×ˢ limits).map (Prod.mk fast)).filter fun x => x.1 < x.2.1 := by
    intro fast
    induction slows with
    | nil => rfl
    | cons slow slows ih =>
      rw [List.product_cons, List.map_append, List.filter_append, List.map_map, ← ih]
      by_cases h : fast < slow
      · have hkeep : (limits.map fun limit => (fast, slow, limit)).filter
            (fun x => x.1 < x.2.1) = limits.map fun limit => (fast, slow, limit) :=
          List.filter_eq_self.mpr (by simp [h])
        rw [List.filter_cons_of_pos (by simpa using h), List.flatMap_cons]
        exact congrArg (· ++ _) hkeep.symm
      · have hskip : (limits.map fun limit => (fast, slow, limit)).filter
            (fun x => x.1 < x.2.1) = [] :=
          List.filter_eq_nil_iff.mpr (by simp [not_lt.mp h])
        rw [List.filter_cons_of_neg (by simpa using h)]
        exact (congrArg (· ++ _) hskip).symm
  induction fasts with
  | nil => rfl
  | cons fast fasts ih =>
    rw [List.product_cons, List.filter_append, ← hslows, ← ih]
    rfl

/-! ## One grid point -/

namespace TradeRows

variable {rows : TradeRows} {debugAssertions : Bool} {fast slow : ℚ} {limit : Nat}

/-- The policy of a point that is not skipped, and the one `run_to_first_halt` gets. -/
theorem exists_policies (debugAssertions : Bool) (ht : fast < slow) (hl : 1 ≤ limit) :
    ∃ p q, ReconcilePolicy.new Arith.exact debugAssertions ⟨fast, 3⟩ ⟨slow, 20⟩ = some p ∧
      pointPolicy Arith.exact debugAssertions fast slow limit = some q ∧ AddsBurst p q := by
  have hnew : ∃ p, ReconcilePolicy.new Arith.exact debugAssertions ⟨fast, 3⟩ ⟨slow, 20⟩ = some p ∧
      p.fast = ⟨fast, 3⟩ ∧ p.slow = ⟨slow, 20⟩ ∧ p.revertBurst = none ∧ p.revertGas = none ∧
      p.volumeWeighted = none ∧ p.drawdown = none := by
    simp [ReconcilePolicy.new, ht]
  obtain ⟨p, hp, hfast, hslow, hothers⟩ := hnew
  have hpoint : pointPolicy Arith.exact debugAssertions fast slow limit =
      p.withRevertBurst ⟨limit⟩ := by
    rw [pointPolicy, hp]
    rfl
  have hpos : 0 < (RevertBurstConfig.mk limit).limit := hl
  rw [withRevertBurst, dif_pos hpos] at hpoint
  exact ⟨p, _, hp, hpoint, rfl, rfl, hothers, hothers.2⟩

/-- The pairs of the rows. -/
def pairs (rows : TradeRows) : Sequence :=
  (rows.predicted.zip rows.realized).map fun row => (⟨row.1⟩, ⟨row.2⟩)

theorem entries_of_no_reverts (hm : rows.Matching) (h : ∀ b ∈ rows.isRevert, b = false) :
    rows.entries = rows.pairs.entries := by
  have hlen : rows.pairs.entries.length = rows.predicted.length := by
    simp [Sequence.entries, pairs, hm.1]
  refine List.ext_getElem (by simp [entries, hlen]) fun i hi _ => ?_
  have hi : i < rows.predicted.length := by simpa [entries] using hi
  have hrealized : i < rows.realized.length := hm.1 ▸ hi
  have hrevert : i < rows.isRevert.length := hm.2 ▸ hi
  have hno : rows.isRevert[i] = false := h _ (List.getElem_mem hrevert)
  simp [entries, entry, Sequence.entries, pairs, hno, hi, hrealized, hrevert]

theorem isRevert_of_mem_entries {sequence : Sequence} : ∀ e ∈ sequence.entries,
    e.isRevert = false := by
  intro e he
  obtain ⟨pair, _, rfl⟩ := List.mem_map.mp he
  rfl

/-- What one grid point yields: the rows at which its policy halts are counted, the first of them is
remembered, and without reverts it is the one that `run_to_first_halt` finds. -/
structure Agrees (rows : TradeRows) (debugAssertions : Bool) (fast slow : ℚ) (limit : Nat)
    (p : ReconcilePolicy ℚ) (r : BatchResult ℚ) : Prop where
  point : r.fastThreshold = fast ∧ r.fastWindow = 3 ∧ r.slowThreshold = slow ∧
    r.slowWindow = 20 ∧ r.revertLimit = limit
  first : ∀ i, r.firstHaltIndex = some i ↔ i < rows.predicted.length ∧
    p.Halts Arith.exact (.ofEntries (rows.entries.take (i + 1))) ∧
    ∀ j < i, ¬p.Halts Arith.exact (.ofEntries (rows.entries.take (j + 1)))
  total : r.totalHalts = (List.range rows.predicted.length).countP fun i =>
    p.Halts Arith.exact (.ofEntries (rows.entries.take (i + 1)))
  online : (∀ b ∈ rows.isRevert, b = false) → ∀ i, r.firstHaltIndex = some i ↔
    firstHaltOf Arith.exact debugAssertions ⟨fast, 3⟩ ⟨slow, 20⟩ rows.pairs = some (some (i + 1))

theorem sweepPoint_agrees (hm : rows.Matching) (debugAssertions : Bool) (ht : fast < slow)
    (hl : 1 ≤ limit) :
    ∃ r q, rows.sweepPoint Arith.exact debugAssertions fast slow limit = some r ∧
      pointPolicy Arith.exact debugAssertions fast slow limit = some q ∧
      rows.Agrees debugAssertions fast slow limit q r := by
  obtain ⟨p, q, hp, hq, hadds⟩ := exists_policies debugAssertions ht hl
  obtain ⟨s, hs, _, hcount, hfirst⟩ := sweepRows_exact hm q (Nat.le_refl _)
  refine ⟨_, q, by rw [sweepPoint, hq, Option.bind_eq_bind, Option.bind_some, hs]; rfl, hq,
    ⟨rfl, rfl, rfl, rfl, rfl⟩, fun i => ?_, hcount, fun hno i => ?_⟩
  · rw [hfirst, List.find?_range_eq_some, List.mem_range, and_left_comm, halting_iff]
    simp only [← halting_iff, Bool.not_eq_true', Bool.not_eq_true]
  · have hlen : rows.pairs.length = rows.predicted.length := by simp [pairs, hm.1]
    have hsame : Halting q rows.pairs.entries = Halting p rows.pairs.entries :=
      funext fun _ => hadds.halting_eq isRevert_of_mem_entries _
    rw [hfirst, firstHaltOf, hp, Option.bind_eq_bind, Option.bind_some, runToFirstHalt_exact,
      entries_of_no_reverts hm hno, hsame, hlen]
    simp

/-- **The two backtesters agree with online evaluation and with each other.** On rows of one length,
in exact arithmetic, `run_sweep_raw` returns one result for each point with `fast < slow`, in nested
order and whatever else is in the grid, and the result is what `Agrees` says of a fresh policy. -/
theorem backtesters_agree (hm : rows.Matching) (debugAssertions : Bool) :
    ∃ result : ℚ × ℚ × Nat → BatchResult ℚ,
      (∀ fasts slows limits, (∀ limit ∈ limits, 1 ≤ limit) →
        rows.runSweepRaw Arith.exact debugAssertions fasts slows limits =
          some (.ok (((fasts ×ˢ slows ×ˢ limits).filter fun x => x.1 < x.2.1).map result))) ∧
      ∀ fast slow limit, fast < slow → 1 ≤ limit → ∃ p,
        pointPolicy Arith.exact debugAssertions fast slow limit = some p ∧
        rows.Agrees debugAssertions fast slow limit p (result (fast, slow, limit)) := by
  let result : ℚ × ℚ × Nat → BatchResult ℚ := fun x =>
    (rows.sweepPoint Arith.exact debugAssertions x.1 x.2.1 x.2.2).getD ⟨0, 0, 0, 0, 0, 0, none, 0⟩
  have hresult : ∀ x : ℚ × ℚ × Nat, x.1 < x.2.1 → 1 ≤ x.2.2 →
      rows.sweepPoint Arith.exact debugAssertions x.1 x.2.1 x.2.2 = some (result x) := by
    intro x ht hl
    obtain ⟨r, _, hr, _⟩ := sweepPoint_agrees hm debugAssertions ht hl
    simp only [result, hr, Option.getD_some]
  refine ⟨result, fun fasts slows limits hlimits => ?_, fun fast slow limit ht hl => ?_⟩
  · have hlengths : ¬(rows.realized.length ≠ rows.predicted.length ∨
        rows.isRevert.length ≠ rows.predicted.length) := by
      rw [hm.1, hm.2]
      simp
    rw [runSweepRaw, if_neg hlengths, gridPoints_exact, mapM_eq_some_map (g := result)]
    · rfl
    · intro x hx
      obtain ⟨hmem, ht⟩ := List.mem_filter.mp hx
      have hl : x.2.2 ∈ limits := (List.mem_product.mp (List.mem_product.mp hmem).2).2
      exact hresult x (of_decide_eq_true ht) (hlimits _ hl)
  · obtain ⟨r, q, hr, hq, hagrees⟩ := sweepPoint_agrees hm debugAssertions ht hl
    rw [hresult (fast, slow, limit) ht hl, Option.some.injEq] at hr
    exact ⟨q, hq, hr ▸ hagrees⟩

/-- Three trades that bring a tenth of what was predicted. -/
def threeBadTrades : TradeRows where
  predicted := List.replicate 3 (.ofInt 100)
  realized := List.replicate 3 (.ofInt 10)
  isRevert := List.replicate 3 false
  gasUsed := []
  gasPrice := []

/-- Of four points two are skipped. -/
theorem backtesters_agree_three_bad_trades : ∃ r r',
    threeBadTrades.runSweepRaw Arith.exact true [1 / 2, 7 / 10] [1 / 2, 7 / 10] [3, 4] =
      some (.ok [r, r']) ∧
    (r.firstHaltIndex = some 2 ↔
      firstHaltOf Arith.exact true ⟨1 / 2, 3⟩ ⟨7 / 10, 20⟩ threeBadTrades.pairs =
        some (some 3)) := by
  have hm : threeBadTrades.Matching := by
    rw [Matching]
    decide
  obtain ⟨result, hgrid, hpoint⟩ := backtesters_agree hm true
  have hlt : (1 / 2 : ℚ) < 7 / 10 := by norm_num
  obtain ⟨p, _, hagrees⟩ := hpoint (1 / 2) (7 / 10) 3 hlt (by decide)
  refine ⟨result (1 / 2, 7 / 10, 3), result (1 / 2, 7 / 10, 4), ?_, hagrees.online (by decide) 2⟩
  rw [hgrid _ _ _ (by decide)]
  norm_num [SProd.sprod, List.product]

end TradeRows

end Driftbrake
