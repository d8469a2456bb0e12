import Driftbrake.Backtest.Shortening
import Driftbrake.Backtest.Synthetic
import Mathlib.Algebra.Order.Round
import Mathlib.Data.Rat.Floor

/-!
# The benchmark

`main` of the `benchmark` crate: a healthy and a drifted batch from one seed, and the sweep of a
grid whose points become stricter. No word of the stream is used for two pairs (`benchmark_slices`),
and the table that is printed for at least one sequence is monotone: from one row to the next no
fewer healthy sequences halt and no more drifted ones are missed (`benchmark_monotone`).
-/

namespace Driftbrake

open ReconcilePolicy

namespace Benchmark

structure Args (F : Type) where
  seed : UInt64
  sequences : Nat
  length : Nat
  noiseStdDev : F
  driftMean : F
  predictedMagnitude : I128

section
variable {F : Type} (N : NoiseArith F) (args : Args F)

/-- The healthy and the drifted batch, which is generated behind it. -/
def batches : StateM Rng (List Sequence × List Sequence) := do
  let healthy ← generateBatch N (.healthy args.noiseStdDev) args.predictedMagnitude
    args.sequences args.length
  let drifted ← generateBatch N (.drifted args.noiseStdDev args.driftMean) args.predictedMagnitude
    args.sequences args.length
  pure (healthy, drifted)

def healthyBatch : List Sequence := ((batches N args).run (.new args.seed)).1.1

def driftedBatch : List Sequence := ((batches N args).run (.new args.seed)).1.2

end

/-- `build_grid`, with its constants as rational numbers. -/
def buildGrid : List (FastGuardConfig ℚ × SlowGuardConfig ℚ) :=
  let fastThresholds : List ℚ := [20, 30, 40, 50, 60, 70, 80].map (· / 100)
  fastThresholds.map fun tF =>
    let tS := min (tF + 20 / 100) (95 / 100)
    (⟨tF, 3⟩, ⟨tS, 20⟩)

/-- The rows of the table, in exact arithmetic. -/
def results {F : Type} (N : NoiseArith F) (args : Args F) (debugAssertions : Bool) :
    Option (List (SweepResult ℚ)) :=
  sweep Arith.exact debugAssertions (healthyBatch N args) (driftedBatch N args) buildGrid

/-! ## The words of a run -/

section
variable {F : Type} (N : NoiseArith F) (args : Args F)

/-- A batch that is made of the stream of the seed from the pair number `start` on. -/
def slices (regime : RegimeParams F) (start : Nat) : List Sequence :=
  (List.range args.sequences).map fun i => (List.range args.length).map fun j =>
    nthPair N regime args.predictedMagnitude (.new args.seed) (start + (args.length * i + j))

theorem healthyBatch_eq : healthyBatch N args = slices N args (.healthy args.noiseStdDev) 0 := by
  have hrun := generateBatch_run N (.healthy args.noiseStdDev) args.predictedMagnitude
    args.sequences args.length (.new args.seed)
  refine (congrArg Prod.fst hrun).trans ?_
  simp only [slices, Nat.zero_add]

theorem driftedBatch_eq : driftedBatch N args =
    slices N args (.drifted args.noiseStdDev args.driftMean) (args.length * args.sequences) := by
  have hdrifted : driftedBatch N args = ((generateBatch N
      (.drifted args.noiseStdDev args.driftMean) args.predictedMagnitude args.sequences
      args.length).run ((generateBatch N (.healthy args.noiseStdDev) args.predictedMagnitude
        args.sequences args.length).run (.new args.seed)).2).1 := rfl
  rw [hdrifted, generateBatch_run, generateBatch_run, slices]
  refine List.map_congr_left fun i _ => List.map_congr_left fun j _ => ?_
  simp only [nthPair, Rng.nth_after]
  congr 2 <;> ring

/-- **No word is used twice**: the pairs of the healthy batch, and those of the drifted batch behind
them, are made of consecutive words of one stream, which are pairwise different unless there are
more than `2 ^ 64`. -/
theorem benchmark_slices :
    healthyBatch N args = slices N args (.healthy args.noiseStdDev) 0 ∧
    driftedBatch N args =
      slices N args (.drifted args.noiseStdDev args.driftMean) (args.length * args.sequences) ∧
    (4 * (args.length * args.sequences) ≤ 2 ^ 64 →
      ((List.range (4 * (args.length * args.sequences))).map (Rng.new args.seed).nth).Nodup) := by
  refine ⟨healthyBatch_eq N args, driftedBatch_eq N args, fun hlen => ?_⟩
  refine List.Nodup.map_on (fun i hi j hj hij => ?_) List.nodup_range
  rw [List.mem_range] at hi hj
  have hmod := Rng.nth_inj.mp hij
  omega

theorem length_slices (regime : RegimeParams F) (start : Nat) :
    (slices N args regime start).length = args.sequences := by simp [slices]

theorem length_of_mem_slices {regime : RegimeParams F} {start : Nat} {sequence : Sequence}
    (h : sequence ∈ slices N args regime start) : sequence.length = args.length := by
  obtain ⟨i, -, rfl⟩ := List.mem_map.mp h
  simp

end

/-! ## One row of the table -/

variable {p q : ReconcilePolicy ℚ} {fast fast' : FastGuardConfig ℚ} {slow slow' : SlowGuardConfig ℚ}
  {debugAssertions : Bool} {healthy drifted : List Sequence} {r r' : SweepResult ℚ}

theorem firstHaltIn_le {sequence : Sequence} {t : Nat} (h : firstHaltIn p sequence = some t) :
    t ≤ sequence.length := by
  obtain ⟨i, hi, rfl⟩ := Option.map_eq_some_iff.mp h
  have hlt := List.mem_range.mp (List.mem_of_find?_eq_some hi)
  omega

/-- A ratio guard does not halt before its window is full. -/
theorem le_firstHaltIn (H : p.RatioGuards fast slow) {sequence : Sequence} {t : Nat}
    (h : firstHaltIn p sequence = some t) : min fast.window slow.window ≤ t := by
  obtain ⟨i, hi, rfl⟩ := Option.map_eq_some_iff.mp h
  obtain ⟨g, hg⟩ := halts_iff.mp (halting_iff.mp (List.find?_some hi))
  have hlen : (positivePairs (sequence.entries.take (i + 1))).length ≤ i + 1 :=
    (List.length_filter_le ..).trans ((List.length_filterMap_le ..).trans (List.length_take_le ..))
  obtain rfl | rfl := H.condition hg
  · have hfull := hg.1
    rw [H.fast] at hfull
    omega
  · have hfull := hg.1
    rw [H.slow] at hfull
    omega

theorem catchTimes_exact (hp : new Arith.exact debugAssertions fast slow = some p)
    (batch : List Sequence) :
    catchTimes Arith.exact debugAssertions fast slow batch =
      some (batch.filterMap (firstHaltIn p)) := by
  rw [catchTimes, mapM_firstHaltOf hp p.total_exact]
  simp only [Option.bind_eq_bind, Option.bind_some, List.filterMap_map]
  rfl

/-- The figures of a row are those of a nonempty batch of sequences of at most `length` pairs. -/
structure Plausible (length : Nat) (r : SweepResult ℚ) : Prop where
  falseHaltRate : 0 ≤ r.falseHaltRate ∧ r.falseHaltRate ≤ 1
  missedCatchRate : 0 ≤ r.missedCatchRate ∧ r.missedCatchRate ≤ 1
  none_iff : r.meanTimeToCatch = none ↔ r.missedCatchRate = 1
  meanTimeToCatch : ∀ t, r.meanTimeToCatch = some t →
    min r.fast.window r.slow.window ≤ t ∧ t ≤ length

/-- What a row is made of. -/
theorem of_sweepPoint (hp : new Arith.exact debugAssertions fast slow = some p)
    (h : sweepPoint Arith.exact debugAssertions fast slow healthy drifted = some r) :
    r.fast = fast ∧ r.slow = slow ∧
      r.falseHaltRate = (healthy.countP fun s => (firstHaltIn p s).isSome) / healthy.length ∧
      r.missedCatchRate =
        ((drifted.length - (drifted.filterMap (firstHaltIn p)).length : Nat) : ℚ) /
          drifted.length ∧
      r.meanTimeToCatch = if (drifted.filterMap (firstHaltIn p)).isEmpty then none
        else some (((drifted.filterMap (firstHaltIn p)).sum : ℚ) /
          (drifted.filterMap (firstHaltIn p)).length) := by
  have hmissed : missed Arith.exact debugAssertions fast slow drifted =
      some (drifted.length - (drifted.filterMap (firstHaltIn p)).length) := by
    rw [missed, catchTimes_exact hp]
    rfl
  rw [sweepPoint, falseHalts_exact hp, catchTimes_exact hp, hmissed] at h
  simp only [Option.bind_eq_bind, Option.bind_some, Option.some.injEq] at h
  subst h
  exact ⟨rfl, rfl, rfl, rfl, rfl⟩

theorem sum_bounds {l : List Nat} {lo hi : Nat} (h : ∀ t ∈ l, lo ≤ t ∧ t ≤ hi) :
    l.length * lo ≤ l.sum ∧ l.sum ≤ l.length * hi := by
  refine ⟨?_, ?_⟩
  · exact List.card_nsmul_le_sum l lo fun t ht => (h t ht).1
  · exact List.sum_le_card_nsmul l hi fun t ht => (h t ht).2

theorem plausible_of_sweepPoint (H : p.RatioGuards fast slow)
    (hp : new Arith.exact debugAssertions fast slow = some p) {length : Nat}
    (hhealthy : healthy ≠ []) (hdrifted : drifted ≠ []) (hlength : ∀ s ∈ drifted, s.length ≤ length)
    (h : sweepPoint Arith.exact debugAssertions fast slow healthy drifted = some r) :
    Plausible length r := by
  obtain ⟨hfast, hslow, hfalse, hmissed, hmean⟩ := of_sweepPoint hp h
  have hhealthy : (0 : ℚ) < healthy.length := by exact_mod_cast List.length_pos_of_ne_nil hhealthy
  have hdrifted : (0 : ℚ) < drifted.length := by exact_mod_cast List.length_pos_of_ne_nil hdrifted
  have hcaught : (drifted.filterMap (firstHaltIn p)).length ≤ drifted.length :=
    List.length_filterMap_le ..
  have htimes : ∀ t ∈ drifted.filterMap (firstHaltIn p),
      min fast.window slow.window ≤ t ∧ t ≤ length := by
    intro t ht
    obtain ⟨s, hs, hst⟩ := List.mem_filterMap.mp ht
    exact ⟨le_firstHaltIn H hst, (firstHaltIn_le hst).trans (hlength s hs)⟩
  generalize drifted.filterMap (firstHaltIn p) = times at hmissed hmean hcaught htimes
  constructor
  · have hle : ((healthy.countP fun s => (firstHaltIn p s).isSome : Nat) : ℚ) ≤ healthy.length := by
      exact_mod_cast List.countP_le_length
    rw [hfalse]
    exact ⟨by positivity, (div_le_one hhealthy).mpr hle⟩
  · have hle : ((drifted.length - times.length : Nat) : ℚ) ≤ drifted.length := by
      exact_mod_cast Nat.sub_le _ _
    rw [hmissed]
    exact ⟨by positivity, (div_le_one hdrifted).mpr hle⟩
  · rw [hmissed, hmean, div_eq_one_iff_eq hdrifted.ne', Nat.cast_inj]
    cases times with
    | nil => simp
    | cons t times =>
      rw [List.length_cons] at hcaught ⊢
      simp
      omega
  · intro t ht
    rw [hmean] at ht
    split at ht
    · cases ht
    · cases ht
      rename_i hne
      have hpos : (0 : ℚ) < times.length := by
        have hne : times ≠ [] := by simpa using hne
        exact_mod_cast List.length_pos_of_ne_nil hne
      obtain ⟨hlo, hhi⟩ := sum_bounds htimes
      rw [hfast, hslow, le_div_iff₀ hpos, div_le_iff₀ hpos, mul_comm, mul_comm (length : ℚ)]
      exact ⟨by exact_mod_cast hlo, by exact_mod_cast hhi⟩

/-! ## The whole table -/

/-- Higher thresholds at equal windows are stricter. -/
theorem stricter_of_ratioGuards (Hp : p.RatioGuards fast slow) (Hq : q.RatioGuards fast' slow')
    (hfast : fast'.window = fast.window) (hslow : slow'.window = slow.window)
    (hfastT : fast.threshold ≤ fast'.threshold) (hslowT : slow.threshold ≤ slow'.threshold) :
    Stricter p q where
  fast_window := by rw [Hp.fast, Hq.fast, hfast]
  fast_threshold := by rw [Hp.fast, Hq.fast]; exact hfastT
  slow_window := by rw [Hp.slow, Hq.slow, hslow]
  slow_threshold := by rw [Hp.slow, Hq.slow]; exact hslowT
  revertBurst := by simp [Hp.revertBurst]
  revertGas := by simp [Hp.revertGas]
  volumeWeighted := by simp [Hp.volumeWeighted]
  drawdown := by simp [Hp.drawdown]

/-- A stricter row has no fewer false halts and no more missed catches. -/
theorem rates_of_stricter (H : Stricter p q)
    (hp : new Arith.exact debugAssertions fast slow = some p)
    (hq : new Arith.exact debugAssertions fast' slow' = some q)
    (hr : sweepPoint Arith.exact debugAssertions fast slow healthy drifted = some r)
    (hr' : sweepPoint Arith.exact debugAssertions fast' slow' healthy drifted = some r') :
    r.falseHaltRate ≤ r'.falseHaltRate ∧ r'.missedCatchRate ≤ r.missedCatchRate := by
  obtain ⟨-, -, hfalse, hmissed, -⟩ := of_sweepPoint hp hr
  obtain ⟨-, -, hfalse', hmissed', -⟩ := of_sweepPoint hq hr'
  have hcaught := H.countP_le drifted
  rw [hfalse, hmissed, hfalse', hmissed', List.length_filterMap_eq_countP,
    List.length_filterMap_eq_countP]
  refine ⟨div_le_div_of_nonneg_right ?_ (by positivity),
    div_le_div_of_nonneg_right ?_ (by positivity)⟩
  · exact_mod_cast H.countP_le healthy
  · exact_mod_cast Nat.sub_le_sub_left hcaught _

/-- A point that `new` accepts. -/
def Valid (point : FastGuardConfig ℚ × SlowGuardConfig ℚ) : Prop :=
  0 < point.1.window ∧ 0 < point.2.window ∧ point.1.threshold < point.2.threshold

/-- The second point has the windows of the first one and thresholds that are no lower. -/
def Tighter (point point' : FastGuardConfig ℚ × SlowGuardConfig ℚ) : Prop :=
  point'.1.window = point.1.window ∧ point'.2.window = point.2.window ∧
    point.1.threshold ≤ point'.1.threshold ∧ point.2.threshold ≤ point'.2.threshold

/-- The rates of two rows are in the order of their strictness. -/
def Monotone (r r' : SweepResult ℚ) : Prop :=
  r.falseHaltRate ≤ r'.falseHaltRate ∧ r'.missedCatchRate ≤ r.missedCatchRate

theorem monotone_of_tighter {point point' : FastGuardConfig ℚ × SlowGuardConfig ℚ}
    (hvalid : Valid point) (hvalid' : Valid point') (htighter : Tighter point point')
    (hr : sweepPoint Arith.exact debugAssertions point.1 point.2 healthy drifted = some r)
    (hr' : sweepPoint Arith.exact debugAssertions point'.1 point'.2 healthy drifted = some r') :
    Monotone r r' := by
  obtain ⟨hf, hs, ht⟩ := hvalid
  obtain ⟨hf', hs', ht'⟩ := hvalid'
  obtain ⟨hfast, hslow, hfastT, hslowT⟩ := htighter
  obtain ⟨p, hp, Hp⟩ := exists_new point.1 point.2 debugAssertions hf hs ht
  obtain ⟨q, hq, Hq⟩ := exists_new point'.1 point'.2 debugAssertions hf' hs' ht'
  exact rates_of_stricter (stricter_of_ratioGuards Hp Hq hfast hslow hfastT hslowT) hp hq hr hr'

theorem exists_sweepPoint {point : FastGuardConfig ℚ × SlowGuardConfig ℚ} (hvalid : Valid point) :
    ∃ r, sweepPoint Arith.exact debugAssertions point.1 point.2 healthy drifted = some r := by
  obtain ⟨p, hp, -⟩ := exists_new point.1 point.2 debugAssertions hvalid.1 hvalid.2.1 hvalid.2.2
  rw [sweepPoint, falseHalts_exact hp, catchTimes_exact hp, missed_exact hp]
  exact ⟨_, rfl⟩

/-- By induction on the grid: the sweep of valid points that become tighter. -/
theorem sweep_monotone (debugAssertions : Bool) (healthy drifted : List Sequence)
    {grid : List (FastGuardConfig ℚ × SlowGuardConfig ℚ)}
    (hvalid : ∀ point ∈ grid, Valid point) (hgrid : grid.Pairwise Tighter) :
    ∃ rows, sweep Arith.exact debugAssertions healthy drifted grid = some rows ∧
      List.Forall₂ (fun point r => sweepPoint Arith.exact debugAssertions point.1 point.2 healthy
        drifted = some r) grid rows ∧ rows.Pairwise Monotone := by
  induction grid with
  | nil => exact ⟨[], rfl, .nil, .nil⟩
  | cons point grid ih =>
    obtain ⟨hpoint, hrest⟩ := List.forall_mem_cons.mp hvalid
    obtain ⟨htighter, hgrid⟩ := List.pairwise_cons.mp hgrid
    obtain ⟨rows, hrows, hmade, hmonotone⟩ := ih hrest hgrid
    obtain ⟨r, hr⟩ := exists_sweepPoint hpoint
    refine ⟨r :: rows, ?_, .cons hr hmade, .cons ?_ hmonotone⟩
    · rw [sweep] at hrows ⊢
      rw [List.mapM_cons, hr, hrows]
      rfl
    · intro r' hr'
      obtain ⟨point', hmem, hpoint'⟩ := exists_of_mem_mapM hrows hr'
      exact monotone_of_tighter hpoint (hrest point' hmem) (htighter point' hmem) hr hpoint'

theorem points_of_rows {grid : List (FastGuardConfig ℚ × SlowGuardConfig ℚ)}
    {rows : List (SweepResult ℚ)} (hvalid : ∀ point ∈ grid, Valid point)
    (hmade : List.Forall₂ (fun point r => sweepPoint Arith.exact debugAssertions point.1 point.2
      healthy drifted = some r) grid rows) : rows.map (fun r => (r.fast, r.slow)) = grid := by
  induction hmade with
  | nil => rfl
  | @cons point r grid rows hr _ ih =>
    obtain ⟨hpoint, hrest⟩ := List.forall_mem_cons.mp hvalid
    obtain ⟨p, hp, -⟩ := exists_new point.1 point.2 debugAssertions hpoint.1 hpoint.2.1 hpoint.2.2
    obtain ⟨hfast, hslow, -⟩ := of_sweepPoint hp hr
    rw [List.map_cons, ih hrest, hfast, hslow]

theorem buildGrid_valid : ∀ point ∈ buildGrid, Valid point := by
  simp only [buildGrid, List.map_cons, List.map_nil, List.forall_mem_cons, Valid]
  norm_num

theorem buildGrid_tighter : buildGrid.Pairwise Tighter := by
  simp only [buildGrid, List.map_cons, List.map_nil, List.pairwise_cons, List.forall_mem_cons,
    Tighter]
  norm_num

/-- **The table of the benchmark is monotone**: for every seed, length and noise and at least one
sequence it has one row for every point of the grid, with rates between 0 and 1 and a mean time to
catch between 3 and the length of the sequences, and from one row to those below no fewer healthy
sequences halt and no more drifted ones are missed. Without sequences the rates are no numbers. -/
theorem benchmark_monotone {F : Type} (N : NoiseArith F) (args : Args F) (debugAssertions : Bool)
    (hsequences : 0 < args.sequences) :
    ∃ rows, results N args debugAssertions = some rows ∧
      rows.map (fun r => (r.fast, r.slow)) = buildGrid ∧
      (∀ r ∈ rows, Plausible args.length r) ∧ rows.Pairwise Monotone := by
  obtain ⟨rows, hrows, hmade, hmonotone⟩ := sweep_monotone debugAssertions (healthyBatch N args)
    (driftedBatch N args) buildGrid_valid buildGrid_tighter
  refine ⟨rows, hrows, points_of_rows buildGrid_valid hmade, fun r hr => ?_, hmonotone⟩
  obtain ⟨point, hpoint, hsweep⟩ := exists_of_mem_mapM hrows hr
  obtain ⟨hf, hs, ht⟩ := buildGrid_valid point hpoint
  obtain ⟨p, hp, H⟩ := exists_new point.1 point.2 debugAssertions hf hs ht
  rw [healthyBatch_eq, driftedBatch_eq] at hsweep
  refine plausible_of_sweepPoint H hp ?_ ?_ (fun s hs => (length_of_mem_slices N args hs).le) hsweep
  · exact List.ne_nil_of_length_pos (by rw [length_slices]; exact hsequences)
  · exact List.ne_nil_of_length_pos (by rw [length_slices]; exact hsequences)

/-- Exact arithmetic for runs without noise, in which the logarithm and the cosine are multiplied by
zero. -/
def noiseless : NoiseArith ℚ where
  ofU64 x := x.toNat
  ofI128 x := x.toInt
  roundI128 x := .ofInt (round x)
  one := 1
  negTwo := -2
  epsilon := 1 / 2 ^ 52
  tau := 2 * 22 / 7
  add x y := x + y
  mul x y := x * y
  div x y := x / y
  min x y := min x y
  ln _ := 0
  sqrt _ := 0
  cos _ := 0

/-- Two healthy sequences and two that realize 40 percent. -/
def sampleArgs : Args ℚ where
  seed := 42
  sequences := 2
  length := 3
  noiseStdDev := 0
  driftMean := 2 / 5
  predictedMagnitude := .ofInt 1000000

/-- The rows below the first three catch the drift. -/
theorem benchmark_monotone_sample :
    (results noiseless sampleArgs true).map (·.map (·.missedCatchRate)) =
      some [1, 1, 1, 0, 0, 0, 0] ∧
    ∃ rows, results noiseless sampleArgs true = some rows ∧ rows.Pairwise Monotone := by
  obtain ⟨rows, hrows, -, -, hmonotone⟩ :=
    benchmark_monotone noiseless sampleArgs true (by decide)
  exact ⟨by decide +kernel, rows, hrows, hmonotone⟩

end Benchmark

end Driftbrake
