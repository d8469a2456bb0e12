import Driftbrake.Backtest.Batch

/-!
# Tightening a policy

A policy that enables every guard of another one, with equal windows and parameters at least as
strict, has every condition of the other one (`condition_of_stricter`), so it halts wherever the
other one does, though perhaps for another reason. The first-halt search and the counts of both
backtesting harnesses inherit this.
-/

namespace Driftbrake

namespace ReconcilePolicy

/-- `q` enables every guard of `p`, with equal windows and parameters at least as strict. -/
structure Stricter (p q : ReconcilePolicy ℚ) : Prop where
  fast_window : q.fast.window = p.fast.window
  fast_threshold : p.fast.threshold ≤ q.fast.threshold
  slow_window : q.slow.window = p.slow.window
  slow_threshold : p.slow.threshold ≤ q.slow.threshold
  revertBurst : ∀ c, p.revertBurst = some c → ∃ c', q.revertBurst = some c' ∧ c'.limit ≤ c.limit
  revertGas : ∀ c, p.revertGas = some c → ∃ c', q.revertGas = some c' ∧ c'.window = c.window ∧
    c'.budgetLimit.toNat ≤ c.budgetLimit.toNat
  volumeWeighted : ∀ c, p.volumeWeighted = some c → ∃ c', q.volumeWeighted = some c' ∧
    c'.window = c.window ∧ c.threshold ≤ c'.threshold
  drawdown : ∀ c, p.drawdown = some c → ∃ c', q.drawdown = some c' ∧ c'.window = c.window ∧
    c'.maxDrawdownLimit.toInt ≤ c.maxDrawdownLimit.toInt

variable {p q : ReconcilePolicy ℚ} {ops : List HistoryEntry}

theorem rtake_subset {α : Type} {l : List α} {m n : Nat} (h : m ≤ n) : l.rtake m ⊆ l.rtake n := by
  intro a ha
  rw [List.rtake] at ha ⊢
  exact (List.drop_subset_drop_left l (by omega)) ha

theorem condition_of_stricter (H : Stricter p q) {g : Guard} (h : p.Condition ops g) :
    q.Condition ops g := by
  cases g with
  | revertBurst =>
    obtain ⟨c, hc, hlen, hall⟩ := h
    obtain ⟨c', hc', hle⟩ := H.revertBurst c hc
    exact ⟨c', hc', by omega, fun e he => hall e (rtake_subset hle he)⟩
  | revertGas =>
    obtain ⟨c, hc, hlt⟩ := h
    obtain ⟨c', hc', hw, hle⟩ := H.revertGas c hc
    exact ⟨c', hc', by rw [hw]; omega⟩
  | fast =>
    obtain ⟨hlen, hall⟩ := h
    refine ⟨H.fast_window ▸ hlen, ?_⟩
    rw [H.fast_window]
    exact fun e he => (hall e he).trans_le H.fast_threshold
  | drawdown =>
    obtain ⟨c, hc, hlen, hlt⟩ := h
    obtain ⟨c', hc', hw, hle⟩ := H.drawdown c hc
    exact ⟨c', hc', hw ▸ hlen, by rw [hw]; omega⟩
  | volumeWeighted =>
    obtain ⟨c, hc, hlen, hlt⟩ := h
    obtain ⟨c', hc', hw, hle⟩ := H.volumeWeighted c hc
    refine ⟨c', hc', hw ▸ hlen, ?_⟩
    rw [hw]
    -- the total prediction of a full window is positive, so it keeps the order of the thresholds
    have hpos := sum_predicted_pos (p.volumeWeighted_pos hc) hlen
    exact hlt.trans_le (mul_le_mul_of_nonneg_right hle (by exact_mod_cast hpos.le))
  | slow =>
    obtain ⟨hlen, hlt⟩ := h
    refine ⟨H.slow_window ▸ hlen, ?_⟩
    rw [H.slow_window]
    exact hlt.trans_le H.slow_threshold

/-- The stricter policy halts on every history on which the other one does. -/
theorem Stricter.halts (H : Stricter p q) (h : p.Halts Arith.exact (.ofEntries ops)) :
    q.Halts Arith.exact (.ofEntries ops) := by
  obtain ⟨g, hg⟩ := halts_iff.mp h
  exact halts_iff.mpr ⟨g, condition_of_stricter H hg⟩

theorem Stricter.halting (H : Stricter p q) {i : Nat} (h : Halting p ops i) : Halting q ops i :=
  halting_iff.mpr (H.halts (halting_iff.mp h))

end ReconcilePolicy

open ReconcilePolicy

/-! ## Searching and counting -/

/-- `o'` is `some` no later than `o` is. -/
def NoLater (o o' : Option Nat) : Prop := ∀ i, o = some i → ∃ i' ≤ i, o' = some i'

theorem find?_range_noLater {n : Nat} {f g : Nat → Bool} (h : ∀ i, f i → g i) :
    NoLater ((List.range n).find? f) ((List.range n).find? g) := by
  intro i hi
  obtain ⟨hfi, hmem, _⟩ := List.find?_range_eq_some.mp hi
  cases hg : (List.range n).find? g with
  | none => exact absurd (h i hfi) (by simpa using List.find?_eq_none.mp hg i hmem)
  | some i' =>
    refine ⟨i', ?_, rfl⟩
    by_contra hlt
    obtain ⟨_, _, hmin⟩ := List.find?_range_eq_some.mp hg
    have := hmin i (by omega)
    simp [h i hfi] at this

theorem NoLater.map_succ {o o' : Option Nat} (h : NoLater o o') :
    NoLater (o.map (· + 1)) (o'.map (· + 1)) := by
  intro i hi
  obtain ⟨j, rfl, rfl⟩ := Option.map_eq_some_iff.mp hi
  obtain ⟨j', hle, rfl⟩ := h j rfl
  exact ⟨j' + 1, by omega, rfl⟩

theorem NoLater.isSome {o o' : Option Nat} (h : NoLater o o') (ho : o.isSome) : o'.isSome := by
  obtain ⟨i, rfl⟩ := Option.isSome_iff_exists.mp ho
  obtain ⟨i', _, rfl⟩ := h i rfl
  rfl

/-- The first halt of `run_to_first_halt`, in exact arithmetic. -/
def firstHaltIn (p : ReconcilePolicy ℚ) (sequence : Sequence) : Option Nat :=
  ((List.range sequence.length).find? (Halting p sequence.entries)).map (· + 1)

variable {p q : ReconcilePolicy ℚ}

theorem ReconcilePolicy.Stricter.firstHaltIn_noLater (H : Stricter p q) (sequence : Sequence) :
    NoLater (firstHaltIn p sequence) (firstHaltIn q sequence) :=
  (find?_range_noLater fun _ => H.halting).map_succ

section
variable {debugAssertions : Bool} {fast fast' : FastGuardConfig ℚ} {slow slow' : SlowGuardConfig ℚ}

theorem falseHalts_exact (hp : new Arith.exact debugAssertions fast slow = some p)
    (batch : List Sequence) :
    falseHalts Arith.exact debugAssertions fast slow batch =
      some (batch.countP fun s => (firstHaltIn p s).isSome) := by
  rw [falseHalts, mapM_firstHaltOf hp p.total_exact, Option.bind_eq_bind, Option.bind_some,
    List.countP_map]
  rfl

theorem missed_exact (hp : new Arith.exact debugAssertions fast slow = some p)
    (batch : List Sequence) :
    missed Arith.exact debugAssertions fast slow batch =
      some (batch.length - batch.countP fun s => (firstHaltIn p s).isSome) :=
  missed_of_total hp p.total_exact batch

theorem ReconcilePolicy.Stricter.countP_le (H : Stricter p q) (batch : List Sequence) :
    batch.countP (fun s => (firstHaltIn p s).isSome) ≤
      batch.countP fun s => (firstHaltIn q s).isSome :=
  List.countP_mono_left fun s _ => (H.firstHaltIn_noLater s).isSome

end

/-! ## The batch engine -/

theorem exists_of_mem_mapM {α β : Type} {f : α → Option β} {l : List α} {l' : List β} {b : β}
    (h : l.mapM f = some l') (hb : b ∈ l') : ∃ a ∈ l, f a = some b := by
  induction l generalizing l' with
  | nil => cases h; cases hb
  | cons a l ih =>
    simp only [List.mapM_cons, Option.bind_eq_bind, Option.bind_eq_some_iff, Option.pure_def,
      Option.some.injEq] at h
    obtain ⟨b', hb', l'', hl'', rfl⟩ := h
    rcases List.mem_cons.mp hb with rfl | hb
    · exact ⟨a, List.mem_cons_self, hb'⟩
    · obtain ⟨a', ha', hfa'⟩ := ih hl'' hb
      exact ⟨a', List.mem_cons_of_mem _ ha', hfa'⟩

namespace TradeRows

variable {rows : TradeRows} {debugAssertions : Bool} {fastT slowT : ℚ} {revLim : Nat}
  {r : BatchResult ℚ}

theorem sweepPoint_exact (hm : rows.Matching)
    (h : rows.sweepPoint Arith.exact debugAssertions fastT slowT revLim = some r) :
    ∃ p, pointPolicy Arith.exact debugAssertions fastT slowT revLim = some p ∧
      r.fastThreshold = fastT ∧ r.slowThreshold = slowT ∧ r.revertLimit = revLim ∧
      r.totalHalts = (List.range rows.predicted.length).countP (Halting p rows.entries) ∧
      r.firstHaltIndex = (List.range rows.predicted.length).find? (Halting p rows.entries) := by
  rw [sweepPoint, Option.bind_eq_bind, Option.bind_eq_some_iff] at h
  obtain ⟨p, hp, h⟩ := h
  obtain ⟨s, hs, _, hcount, hfirst⟩ := sweepRows_exact hm p (Nat.le_refl _)
  rw [hs, Option.bind_eq_bind, Option.bind_some, Option.some.injEq] at h
  subst h
  exact ⟨p, hp, rfl, rfl, rfl, hcount, hfirst⟩

theorem pointPolicy_eq {F : Type} {A : Arith F} {fastT slowT : F} {p : ReconcilePolicy F}
    (h : pointPolicy A debugAssertions fastT slowT revLim = some p) :
    p.fast = ⟨fastT, 3⟩ ∧ p.slow = ⟨slowT, 20⟩ ∧ p.revertBurst = some ⟨revLim⟩ ∧
      p.revertGas = none ∧ p.volumeWeighted = none ∧ p.drawdown = none := by
  rw [pointPolicy, Option.bind_eq_bind, Option.bind_eq_some_iff] at h
  obtain ⟨p₀, hp₀, h⟩ := h
  rw [withRevertBurst] at h
  split at h
  · cases h
    rw [new] at hp₀
    split at hp₀
    · split at hp₀
      · cases hp₀
      · cases hp₀
        exact ⟨rfl, rfl, rfl, rfl, rfl, rfl⟩
    · cases hp₀
  · cases h

/-- Of two grid points, the one with higher thresholds and a lower revert limit is stricter. -/
theorem pointPolicy_stricter {fastT' slowT' : ℚ} {revLim' : Nat}
    (hp : pointPolicy Arith.exact debugAssertions fastT slowT revLim = some p)
    (hq : pointPolicy Arith.exact debugAssertions fastT' slowT' revLim' = some q)
    (hf : fastT ≤ fastT') (hs : slowT ≤ slowT') (hl : revLim' ≤ revLim) : Stricter p q := by
  obtain ⟨hpf, hps, hpb, hpg, hpv, hpd⟩ := pointPolicy_eq hp
  obtain ⟨hqf, hqs, hqb, hqg, hqv, hqd⟩ := pointPolicy_eq hq
  refine ⟨by rw [hqf, hpf], by rw [hqf, hpf]; exact hf, by rw [hqs, hps],
    by rw [hqs, hps]; exact hs, ?_, by simp [hpg], by simp [hpv], by simp [hpd]⟩
  intro c hc
  rw [hpb] at hc
  cases hc
  exact ⟨_, hqb, hl⟩

/-- The results of a sweep are those of its grid points, on arrays of one length. -/
theorem mem_of_runSweepRaw {fasts slows : List ℚ} {limits : List Nat}
    {results : List (BatchResult ℚ)}
    (h : rows.runSweepRaw Arith.exact debugAssertions fasts slows limits = some (.ok results))
    (hr : r ∈ results) :
    rows.Matching ∧ ∃ fastT slowT revLim,
      rows.sweepPoint Arith.exact debugAssertions fastT slowT revLim = some r := by
  rw [runSweepRaw] at h
  split at h
  · cases h
  next hm =>
    push Not at hm
    rw [Option.bind_eq_bind, Option.bind_eq_some_iff] at h
    obtain ⟨rs, hrs, h⟩ := h
    cases h
    refine ⟨hm, ?_⟩
    obtain ⟨point, _, hpoint⟩ := exists_of_mem_mapM hrs hr
    exact ⟨_, _, _, hpoint⟩

/-- In two sweeps of one data set, a result with higher thresholds and a lower revert limit halts
no later and on no fewer rows. -/
theorem runSweepRaw_stricter {fasts slows fasts' slows' : List ℚ} {limits limits' : List Nat}
    {results results' : List (BatchResult ℚ)} {r r' : BatchResult ℚ}
    (h : rows.runSweepRaw Arith.exact debugAssertions fasts slows limits = some (.ok results))
    (h' : rows.runSweepRaw Arith.exact debugAssertions fasts' slows' limits' = some (.ok results'))
    (hr : r ∈ results) (hr' : r' ∈ results')
    (hf : r.fastThreshold ≤ r'.fastThreshold) (hs : r.slowThreshold ≤ r'.slowThreshold)
    (hl : r'.revertLimit ≤ r.revertLimit) :
    NoLater r.firstHaltIndex r'.firstHaltIndex ∧ r.totalHalts ≤ r'.totalHalts := by
  obtain ⟨hm, _, _, _, hpoint⟩ := mem_of_runSweepRaw h hr
  obtain ⟨_, _, _, _, hpoint'⟩ := mem_of_runSweepRaw h' hr'
  obtain ⟨p, hp, rfl, rfl, rfl, hcount, hfirst⟩ := sweepPoint_exact hm hpoint
  obtain ⟨q, hq, rfl, rfl, rfl, hcount', hfirst'⟩ := sweepPoint_exact hm hpoint'
  have H : Stricter p q := pointPolicy_stricter hp hq hf hs hl
  rw [hfirst, hfirst', hcount, hcount']
  exact ⟨find?_range_noLater fun _ => H.halting, List.countP_mono_left fun _ _ => H.halting⟩

end TradeRows

/-- **Tightening never loses a catch.** A stricter policy halts on every history on which the other
one halts; its first halt is no later and exists when the other one's does; as a configuration of
the sweep it has at least as many false halts and at most as many missed catches, whatever the
batches; and in the batch engine its first halt is no later and its halts are no fewer. -/
theorem tightening_never_loses_a_catch :
    (∀ p q, Stricter p q → ∀ ops, p.Halts Arith.exact (.ofEntries ops) →
      q.Halts Arith.exact (.ofEntries ops)) ∧
    (∀ p q, Stricter p q → ∀ sequence, ∃ first first',
      runToFirstHalt Arith.exact p sequence = some first ∧
      runToFirstHalt Arith.exact q sequence = some first' ∧ NoLater first first') ∧
    (∀ debugAssertions fast slow fast' slow' p q,
      new Arith.exact debugAssertions fast slow = some p →
      new Arith.exact debugAssertions fast' slow' = some q → Stricter p q → ∀ batch,
      ∃ n n' m m', falseHalts Arith.exact debugAssertions fast slow batch = some n ∧
        falseHalts Arith.exact debugAssertions fast' slow' batch = some n' ∧ n ≤ n' ∧
        missed Arith.exact debugAssertions fast slow batch = some m ∧
        missed Arith.exact debugAssertions fast' slow' batch = some m' ∧ m' ≤ m) ∧
    (∀ rows : TradeRows,
      ∀ debugAssertions fasts slows limits fasts' slows' limits' results results',
      rows.runSweepRaw Arith.exact debugAssertions fasts slows limits = some (.ok results) →
      rows.runSweepRaw Arith.exact debugAssertions fasts' slows' limits' = some (.ok results') →
      ∀ r ∈ results, ∀ r' ∈ results', r.fastThreshold ≤ r'.fastThreshold →
      r.slowThreshold ≤ r'.slowThreshold → r'.revertLimit ≤ r.revertLimit →
      NoLater r.firstHaltIndex r'.firstHaltIndex ∧ r.totalHalts ≤ r'.totalHalts) := by
  refine ⟨fun p q H ops => H.halts, fun p q H sequence => ?_, ?_, ?_⟩
  · exact ⟨_, _, runToFirstHalt_exact p sequence, runToFirstHalt_exact q sequence,
      H.firstHaltIn_noLater sequence⟩
  · intro debugAssertions fast slow fast' slow' p q hp hq H batch
    have hle := H.countP_le batch
    exact ⟨_, _, _, _, falseHalts_exact hp batch, falseHalts_exact hq batch, hle,
      missed_exact hp batch, missed_exact hq batch, Nat.sub_le_sub_left hle _⟩
  · intro rows debugAssertions fasts slows limits fasts' slows' limits' results results' h h'
      r hr r' hr' hf hs hl
    exact TradeRows.runSweepRaw_stricter h h' hr hr' hf hs hl

/-- The shipped policy with higher thresholds. -/
def tighterDualGuard : ReconcilePolicy ℚ :=
  { defaultDualGuard with
    fast := ⟨3 / 5, 3⟩
    slow := ⟨4 / 5, 20⟩
    fast_pos := by decide
    slow_pos := by decide }

theorem stricter_tighterDualGuard : Stricter defaultDualGuard tighterDualGuard where
  fast_window := rfl
  fast_threshold := by decide +kernel
  slow_window := rfl
  slow_threshold := by decide +kernel
  revertBurst := nofun
  revertGas := nofun
  volumeWeighted := nofun
  drawdown := nofun

theorem new_tighterDualGuard :
    new Arith.exact true ⟨3 / 5, 3⟩ ⟨4 / 5, 20⟩ = some tighterDualGuard := by
  have h : (3 / 5 : ℚ) < 4 / 5 := by norm_num
  simp [new, tighterDualGuard, defaultDualGuard, h]

/-- Three trades, of which the shipped thresholds halt those that realize 10 percent and only the
higher ones those that realize 55. -/
def threeTrades (realized : Int) : Sequence := List.replicate 3 (⟨.ofInt 100⟩, ⟨.ofInt realized⟩)

def mildDrift : TradeRows where
  predicted := List.replicate 3 (.ofInt 100)
  realized := List.replicate 3 (.ofInt 55)
  isRevert := List.replicate 3 false
  gasUsed := []
  gasPrice := []

/-- The two policies in each of the harnesses. -/
theorem tightening_never_loses_a_catch_dual_guards :
    tighterDualGuard.Halts Arith.exact (.ofEntries (threeTrades 10).entries) ∧
    (∃ first first',
      runToFirstHalt Arith.exact defaultDualGuard (threeTrades 10) = some first ∧
      runToFirstHalt Arith.exact tighterDualGuard (threeTrades 10) = some first' ∧
      NoLater first first') ∧
    (∃ n n' m m',
      falseHalts Arith.exact true ⟨1 / 2, 3⟩ ⟨7 / 10, 20⟩
        [threeTrades 10, threeTrades 55] = some n ∧
      falseHalts Arith.exact true ⟨3 / 5, 3⟩ ⟨4 / 5, 20⟩
        [threeTrades 10, threeTrades 55] = some n' ∧
      n ≤ n' ∧
      missed Arith.exact true ⟨1 / 2, 3⟩ ⟨7 / 10, 20⟩
        [threeTrades 10, threeTrades 55] = some m ∧
      missed Arith.exact true ⟨3 / 5, 3⟩ ⟨4 / 5, 20⟩
        [threeTrades 10, threeTrades 55] = some m' ∧
      m' ≤ m) ∧
    ∃ results results',
      mildDrift.runSweepRaw Arith.exact true [1 / 2] [7 / 10] [2] = some (.ok results) ∧
      mildDrift.runSweepRaw Arith.exact true [3 / 5] [4 / 5] [2] = some (.ok results') ∧
      ∀ r ∈ results, ∀ r' ∈ results',
        NoLater r.firstHaltIndex r'.firstHaltIndex ∧ r.totalHalts ≤ r'.totalHalts := by
  obtain ⟨hhalts, hruns, hcounts, hbatch⟩ := tightening_never_loses_a_catch
  have hstricter := stricter_tighterDualGuard
  have hlow : mildDrift.runSweepRaw Arith.exact true [1 / 2] [7 / 10] [2] =
      some (.ok [⟨1 / 2, 3, 7 / 10, 20, 2, 0, none, 0⟩]) := by decide +kernel
  have hhigh : mildDrift.runSweepRaw Arith.exact true [3 / 5] [4 / 5] [2] =
      some (.ok [⟨3 / 5, 3, 4 / 5, 20, 2, 1, some 2, 45⟩]) := by decide +kernel
  refine ⟨hhalts _ _ hstricter _ (by decide +kernel), hruns _ _ hstricter _,
    hcounts _ _ _ _ _ _ _ new_defaultDualGuard new_tighterDualGuard hstricter _,
    _, _, hlow, hhigh, ?_⟩
  intro r hr r' hr'
  obtain rfl := List.mem_singleton.mp hr
  obtain rfl := List.mem_singleton.mp hr'
  exact hbatch _ _ _ _ _ _ _ _ _ _ hlow hhigh _ hr _ hr' (by decide +kernel) (by decide +kernel)
    (Nat.le_refl 2)

end Driftbrake
