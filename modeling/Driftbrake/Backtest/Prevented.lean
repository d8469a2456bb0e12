import Driftbrake.Backtest.Batch
import Driftbrake.Core.Machine
import Mathlib.Algebra.BigOperators.Intervals
import Mathlib.Algebra.Order.BigOperators.Group.Finset

/-!
# The drawdown that the batch engine reports as prevented

`run_sweep_raw` evaluates the policy behind the operation of a row and adds the loss of that row
when it halts, so a row is credited when the policy halts on the rows up to and including it. What a
halt could have prevented are the losses of all rows behind the first such row. The two totals are
compared in the integer arithmetic of a build, with any `f64` operations (`creditsAvoidable_iff`).
-/

namespace Driftbrake

variable {F : Type}

/-- Without the guards that compute with integers no arithmetic panics. -/
theorem ReconcilePolicy.evaluate_isSome {p : ReconcilePolicy F} (hg : p.revertGas = none)
    (hv : p.volumeWeighted = none) (hd : p.drawdown = none) (A : Arith F)
    (history : ReconcileHistory) : ∃ d, p.evaluate A history = some d := by
  have hcheck : ∀ g, ∃ r, p.check A history g = some r := by
    intro g
    cases g with
    | revertBurst =>
      rw [check, revertBurstCheck]
      cases p.revertBurst with
      | none => exact ⟨_, rfl⟩
      | some burst => exact ⟨_, (apply_ite some _ _ _).symm⟩
    | revertGas => exact ⟨none, by rw [check, revertGasCheck, hg]⟩
    | fast => exact ⟨_, (apply_ite some _ _ _).symm⟩
    | drawdown => exact ⟨none, by rw [check, drawdownCheck, hd]⟩
    | volumeWeighted => exact ⟨none, by rw [check, volumeWeightedCheck, hv]⟩
    | slow =>
      rw [check, slowCheck]
      split
      · exact ⟨_, (apply_ite some _ _ _).symm⟩
      · exact ⟨_, rfl⟩
  unfold evaluate
  induction Guard.order with
  | nil => exact ⟨_, rfl⟩
  | cons g gs ih =>
    obtain ⟨r, hr⟩ := hcheck g
    cases r with
    | none => simpa [firstHalt, hr] using ih
    | some r => exact ⟨.halt r, by simp [firstHalt, hr]⟩

namespace TradeRows

section
variable (rows : TradeRows) (A : Arith F) (p : ReconcilePolicy F)

/-- `max(0, predicted - realized)` of a row that is not a revert. -/
def loss (i : Nat) : Int :=
  if rows.isRevert.getD i false then 0
  else max 0 ((rows.predicted.getD i (.ofInt 0)).toInt - (rows.realized.getD i (.ofInt 0)).toInt)

/-- The losses of the rows behind row `f`. -/
def lossAfter (f : Nat) : Int := ∑ i ∈ Finset.Ico (f + 1) rows.predicted.length, rows.loss i

/-- The policy halts on the rows up to and including row `i`. -/
def HaltsAt (i : Nat) : Prop := p.Halts A (.ofEntries (rows.entries.take (i + 1)))

instance (i : Nat) : Decidable (rows.HaltsAt A p i) := inferInstanceAs (Decidable (p.Halts _ _))

/-- The policy halts on row `f` and on no row before it. -/
def FirstHaltAt (f : Nat) : Prop :=
  f < rows.predicted.length ∧ rows.HaltsAt A p f ∧ ∀ j < f, ¬rows.HaltsAt A p j

/-- What a row contributes to the total, as an integer. -/
def credit (i : Nat) : Int := if rows.HaltsAt A p i then rows.loss i else 0

end

variable {rows : TradeRows} {A : Arith F} {p : ReconcilePolicy F} {overflowChecks : Bool}
  {i f n : Nat}

theorem loss_nonneg (rows : TradeRows) (i : Nat) : 0 ≤ rows.loss i := by
  rw [loss]
  split
  · exact Int.le_refl 0
  · exact Int.le_max_left _ _

theorem loss_lt (rows : TradeRows) (i : Nat) : rows.loss i < 2 ^ 128 := by
  rw [loss]
  split
  · decide
  · have hp := (rows.predicted.getD i (.ofInt 0)).inRange_toInt
    have hr := (rows.realized.getD i (.ofInt 0)).inRange_toInt
    obtain ⟨_, hp⟩ := hp
    obtain ⟨hr, _⟩ := hr
    omega

theorem credit_nonneg (i : Nat) : 0 ≤ rows.credit A p i := by
  rw [credit]
  split
  · exact rows.loss_nonneg i
  · exact Int.le_refl 0

theorem credit_le_loss (i : Nat) : rows.credit A p i ≤ rows.loss i := by
  rw [credit]
  split
  · exact Int.le_refl _
  · exact rows.loss_nonneg i

/-- Up to the first halt only its own row is credited. -/
theorem FirstHaltAt.sum_credit_succ (H : rows.FirstHaltAt A p f) :
    ∑ i ∈ Finset.range (f + 1), rows.credit A p i = rows.loss f := by
  obtain ⟨_, hhalt, hno⟩ := H
  rw [Finset.sum_range_succ, credit, if_pos hhalt, Finset.sum_eq_zero, Int.zero_add]
  intro i hi
  rw [credit, if_neg (hno i (Finset.mem_range.mp hi))]

theorem FirstHaltAt.sum_credit (H : rows.FirstHaltAt A p f) :
    ∑ i ∈ Finset.range rows.predicted.length, rows.credit A p i =
      rows.loss f + ∑ i ∈ Finset.Ico (f + 1) rows.predicted.length, rows.credit A p i := by
  rw [← Finset.sum_range_add_sum_Ico _ (Nat.succ_le_of_lt H.1), H.sum_credit_succ]

/-- The later credits add up to the later losses exactly when every later loss is credited. -/
theorem sum_credit_eq_lossAfter_iff :
    ∑ i ∈ Finset.Ico (f + 1) rows.predicted.length, rows.credit A p i = rows.lossAfter f ↔
      ∀ i, f < i → i < rows.predicted.length → 0 < rows.loss i → rows.HaltsAt A p i := by
  rw [lossAfter, Finset.sum_eq_sum_iff_of_le fun i _ => credit_le_loss i]
  refine forall_congr' fun i => ?_
  rw [Finset.mem_Ico, Nat.succ_le_iff, and_imp]
  refine imp_congr_right fun _ => imp_congr_right fun _ => ?_
  have hnonneg := rows.loss_nonneg i
  rw [credit]
  split
  next h => simp [h]
  next h =>
    simp only [h, imp_false, Int.not_lt]
    omega

/-! ## The row loop in the arithmetic of a build -/

/-- What `addDrawdown` does: two operations if there is a loss. -/
theorem addDrawdown_machine (hm : rows.Matching) (hi : i < rows.predicted.length) (total : Int) :
    rows.addDrawdown (A.machine overflowChecks) total i =
      if 0 < rows.loss i then
        (I128.result overflowChecks (rows.loss i)).bind fun loss =>
          I128.result overflowChecks (total + loss)
      else some total := by
  rw [addDrawdown, getElem?_isRevert hm hi, getElem?_predicted hi, getElem?_realized hm hi, loss]
  simp only [Option.bind_eq_bind, Option.bind_some]
  cases rows.isRevert.getD i false with
  | true => rfl
  | false =>
    simp only [Bool.false_eq_true, if_false]
    split
    next hlt =>
      have hmax : max 0 ((rows.predicted.getD i (.ofInt 0)).toInt -
          (rows.realized.getD i (.ofInt 0)).toInt) = (rows.predicted.getD i (.ofInt 0)).toInt -
            (rows.realized.getD i (.ofInt 0)).toInt := max_eq_right (by omega)
      rw [hmax, if_pos (by omega)]
      rfl
    next hle =>
      rw [max_eq_left (by omega), if_neg (by decide)]

/-- A policy of a grid point: the two ratio guards and the burst guard. -/
structure PointGuards (p : ReconcilePolicy F) : Prop where
  revertGas : p.revertGas = none
  volumeWeighted : p.volumeWeighted = none
  drawdown : p.drawdown = none

/-- One row, for a policy that does not panic. -/
theorem sweepRow_eq (hm : rows.Matching) (hp : PointGuards p) (hi : i < rows.predicted.length)
    {s : RowState} (hs : s.history = .ofEntries (rows.entries.take i)) :
    rows.sweepRow A p s i =
      if rows.HaltsAt A p i then
        (rows.addDrawdown A s.totalDrawdown i).map fun total =>
          ⟨.ofEntries (rows.entries.take (i + 1)), s.totalHalts + 1,
            s.firstHaltIndex.or (some i), total⟩
      else some { s with history := .ofEntries (rows.entries.take (i + 1)) } := by
  have hnext : (ReconcileHistory.ofEntries (rows.entries.take i)).apply (rows.entry i) =
      .ofEntries (rows.entries.take (i + 1)) := by
    rw [← ReconcileHistory.ofEntries_append_singleton, entries_take hi.le, entries_take hi,
      List.range_succ, List.map_append, List.map_singleton]
  obtain ⟨d, hd⟩ := p.evaluate_isSome hp.revertGas hp.volumeWeighted hp.drawdown A
    (.ofEntries (rows.entries.take (i + 1)))
  rw [sweepRow, pushRow_eq hm hi, hs, hnext, Option.bind_eq_bind, Option.bind_some, hd,
    Option.bind_eq_bind, Option.bind_some]
  cases d with
  | «continue» =>
    have hno : ¬rows.HaltsAt A p i := by
      rintro ⟨r, hr⟩
      rw [hd] at hr
      cases hr
    rw [if_neg hno]
  | halt r =>
    have hhalt : rows.HaltsAt A p i := ⟨r, hd⟩
    rw [if_pos hhalt]
    cases s.firstHaltIndex <;> cases rows.addDrawdown A s.totalDrawdown i <;> rfl

/-- What is known after `n` rows: the total is an `i128` with the residue of the sum of the
credits. -/
structure Credited (rows : TradeRows) (A : Arith F) (p : ReconcilePolicy F) (n : Nat)
    (s : RowState) : Prop where
  history : s.history = .ofEntries (rows.entries.take n)
  first : s.firstHaltIndex = (List.range n).find? fun i => rows.HaltsAt A p i
  total : s.totalDrawdown ≡ ∑ i ∈ Finset.range n, rows.credit A p i [ZMOD 2 ^ 128]
  inRange : I128.InRange s.totalDrawdown

theorem sweepRows_succ (rows : TradeRows) (A : Arith F) (p : ReconcilePolicy F) (n : Nat) :
    rows.sweepRows A p (n + 1) = (rows.sweepRows A p n).bind fun s => rows.sweepRow A p s n := by
  rw [sweepRows, sweepRows, List.range_succ, List.foldlM_append]
  simp

theorem addDrawdown_modEq (hm : rows.Matching) (hi : i < rows.predicted.length) {total total' : Int}
    (hrange : I128.InRange total)
    (h : rows.addDrawdown (A.machine overflowChecks) total i = some total') :
    total' ≡ total + rows.loss i [ZMOD 2 ^ 128] ∧ I128.InRange total' := by
  rw [addDrawdown_machine hm hi] at h
  split at h
  · obtain ⟨loss, hloss, htotal⟩ := Option.bind_eq_some_iff.mp h
    obtain ⟨_, hmod⟩ := I128.of_result_eq_some hloss
    obtain ⟨hrange', hmod'⟩ := I128.of_result_eq_some htotal
    exact ⟨hmod'.trans (Int.ModEq.add_left _ hmod), hrange'⟩
  next hle =>
    cases h
    have hzero : rows.loss i = 0 := Int.le_antisymm (Int.not_lt.mp hle) (rows.loss_nonneg i)
    rw [hzero, Int.add_zero]
    exact ⟨Int.ModEq.refl _, hrange⟩

/-- By induction on the number of rows; what a row adds is its credit. -/
theorem credited_of_sweepRows (hm : rows.Matching) (hp : PointGuards p)
    (hn : n ≤ rows.predicted.length) {s : RowState}
    (h : rows.sweepRows (A.machine overflowChecks) p n = some s) :
    rows.Credited (A.machine overflowChecks) p n s := by
  induction n generalizing s with
  | zero =>
    cases h
    exact ⟨rfl, rfl, Int.ModEq.refl _, by decide⟩
  | succ n ih =>
    rw [sweepRows_succ, Option.bind_eq_some_iff] at h
    obtain ⟨s₀, h₀, h⟩ := h
    obtain ⟨hhistory, hfirst, htotal, hrange⟩ := ih (by omega) h₀
    rw [sweepRow_eq hm hp hn hhistory] at h
    split at h
    next hhalt =>
      obtain ⟨total, hadd, rfl⟩ := Option.map_eq_some_iff.mp h
      obtain ⟨hmod, hrange'⟩ := addDrawdown_modEq hm hn hrange hadd
      refine ⟨rfl, ?_, ?_, hrange'⟩
      · rw [List.range_succ, List.find?_append, ← hfirst, List.find?_singleton]
        simp [hhalt]
      · rw [Finset.sum_range_succ, credit, if_pos hhalt]
        exact hmod.trans (htotal.add_right _)
    next hno =>
      cases h
      refine ⟨rfl, ?_, ?_, hrange⟩
      · rw [List.range_succ, List.find?_append, ← hfirst, List.find?_singleton]
        simp [hno]
      · rw [Finset.sum_range_succ, credit, if_neg hno, Int.add_zero]
        exact htotal

/-- While the credits fit an `i128` nothing panics and nothing wraps. -/
theorem exists_sweepRows (hm : rows.Matching) (hp : PointGuards p)
    (hn : n ≤ rows.predicted.length)
    (hfits : ∑ i ∈ Finset.range n, rows.credit (A.machine overflowChecks) p i < 2 ^ 127) :
    ∃ s, rows.sweepRows (A.machine overflowChecks) p n = some s ∧
      s.totalDrawdown = ∑ i ∈ Finset.range n, rows.credit (A.machine overflowChecks) p i := by
  induction n with
  | zero => exact ⟨.init, rfl, rfl⟩
  | succ n ih =>
    rw [Finset.sum_range_succ] at hfits ⊢
    have hcredit : 0 ≤ rows.credit (A.machine overflowChecks) p n := credit_nonneg n
    have hsum : 0 ≤ ∑ i ∈ Finset.range n, rows.credit (A.machine overflowChecks) p i :=
      Finset.sum_nonneg fun i _ => credit_nonneg i
    obtain ⟨s, hs, htotal⟩ := ih (by omega) (by omega)
    rw [sweepRows_succ, hs, Option.bind_some,
      sweepRow_eq hm hp hn (credited_of_sweepRows hm hp (by omega) hs).history]
    rw [credit] at hfits hcredit ⊢
    split
    next hhalt =>
      rw [if_pos hhalt] at hfits hcredit
      rw [addDrawdown_machine hm hn, htotal]
      split
      · rw [I128.result_of_inRange ⟨by omega, by omega⟩, Option.bind_some,
          I128.result_of_inRange ⟨by omega, by omega⟩]
        exact ⟨_, rfl, rfl⟩
      next hle =>
        have hzero : rows.loss n = 0 := Int.le_antisymm (Int.not_lt.mp hle) (rows.loss_nonneg n)
        exact ⟨_, rfl, by rw [hzero, Int.add_zero]⟩
    next hno => exact ⟨_, rfl, by rw [Int.add_zero]; exact htotal⟩

theorem Credited.first_eq_some_iff {s : RowState}
    (H : rows.Credited A p rows.predicted.length s) :
    s.firstHaltIndex = some f ↔ rows.FirstHaltAt A p f := by
  rw [H.first, List.find?_range_eq_some, List.mem_range, FirstHaltAt]
  simp only [decide_eq_true_eq, Bool.not_eq_true', decide_eq_false_iff_not]
  rw [and_left_comm]

/-! ## The total against the avoidable losses -/

/-- The result of a grid point credits only avoidable losses: the accumulator is still 0 behind the
first halting row, the total is the sum of the losses behind that row, and it is 0 if there is no
such row. -/
def CreditsAvoidable (rows : TradeRows) (A : Arith F) (debugAssertions : Bool) (fastT slowT : F)
    (revLim : Nat) : Prop :=
  ∃ p r, pointPolicy A debugAssertions fastT slowT revLim = some p ∧
    rows.sweepPoint A debugAssertions fastT slowT revLim = some r ∧
    (∀ f, r.firstHaltIndex = some f →
      (∃ s, rows.sweepRows A p (f + 1) = some s ∧ s.totalDrawdown = 0) ∧
      r.totalDrawdownPrevented = rows.lossAfter f) ∧
    (r.firstHaltIndex = none → r.totalDrawdownPrevented = 0)

/-- The first row on which the policy halts has no loss, the policy halts on every losing row behind
it, and the losses of these fit an `i128`. -/
def HaltsOnLaterLosses (rows : TradeRows) (A : Arith F) (p : ReconcilePolicy F) : Prop :=
  ∀ f, rows.FirstHaltAt A p f → rows.loss f = 0 ∧
    (∀ i, f < i → i < rows.predicted.length → 0 < rows.loss i → rows.HaltsAt A p i) ∧
    rows.lossAfter f < 2 ^ 127

variable {debugAssertions : Bool} {fastT slowT : F} {revLim : Nat}

theorem pointGuards (hp : pointPolicy A debugAssertions fastT slowT revLim = some p) :
    PointGuards p := by
  rw [pointPolicy, Option.bind_eq_bind, Option.bind_eq_some_iff] at hp
  obtain ⟨p₀, hp₀, hp⟩ := hp
  rw [ReconcilePolicy.new] at hp₀
  rw [ReconcilePolicy.withRevertBurst] at hp
  grind [PointGuards]

theorem sweepPoint_eq_some_iff (hp : pointPolicy A debugAssertions fastT slowT revLim = some p)
    {r : BatchResult F} :
    rows.sweepPoint A debugAssertions fastT slowT revLim = some r ↔
      ∃ s, rows.sweepRows A p rows.predicted.length = some s ∧
        r = ⟨fastT, 3, slowT, 20, revLim, s.totalHalts, s.firstHaltIndex, s.totalDrawdown⟩ := by
  rw [sweepPoint, hp, Option.bind_eq_bind, Option.bind_some, Option.bind_eq_bind,
    Option.bind_eq_some_iff]
  simp only [Option.some.injEq, eq_comm]

/-- Without a halt nothing is credited. -/
theorem sum_credit_of_no_halt (h : ∀ f, ¬rows.FirstHaltAt A p f) :
    ∑ i ∈ Finset.range rows.predicted.length, rows.credit A p i = 0 := by
  refine Finset.sum_eq_zero fun i hi => ?_
  rw [credit, if_neg]
  -- a row on which the policy halts would give a first one
  intro hhalt
  have hex : ∃ i, rows.HaltsAt A p i := ⟨i, hhalt⟩
  refine h (Nat.find hex) ⟨?_, Nat.find_spec hex, fun j hj => Nat.find_min hex hj⟩
  exact (Nat.find_min' hex hhalt).trans_lt (Finset.mem_range.mp hi)

theorem creditsAvoidable_of_haltsOnLaterLosses (hm : rows.Matching)
    (hp : pointPolicy (A.machine overflowChecks) debugAssertions fastT slowT revLim = some p)
    (H : rows.HaltsOnLaterLosses (A.machine overflowChecks) p) :
    rows.CreditsAvoidable (A.machine overflowChecks) debugAssertions fastT slowT revLim := by
  have hguards := pointGuards hp
  by_cases hfirst : ∃ f, rows.FirstHaltAt (A.machine overflowChecks) p f
  · obtain ⟨f, hf⟩ := hfirst
    obtain ⟨hzero, hlater, hfits⟩ := H f hf
    have hsum := hf.sum_credit
    rw [hzero, Int.zero_add, sum_credit_eq_lossAfter_iff.mpr hlater] at hsum
    obtain ⟨s, hs, htotal⟩ := exists_sweepRows hm hguards (Nat.le_refl _) (hsum ▸ hfits)
    obtain ⟨s₀, hs₀, htotal₀⟩ := exists_sweepRows hm hguards (Nat.succ_le_of_lt hf.1) (by
      rw [hf.sum_credit_succ, hzero]
      decide)
    have hsome : s.firstHaltIndex = some f :=
      (credited_of_sweepRows hm hguards (Nat.le_refl _) hs).first_eq_some_iff.mpr hf
    refine ⟨p, _, hp, (sweepPoint_eq_some_iff hp).mpr ⟨s, hs, rfl⟩, fun f' hf' => ?_,
      fun hnone => ?_⟩
    · cases hsome.symm.trans hf'
      exact ⟨⟨s₀, hs₀, by rw [htotal₀, hf.sum_credit_succ, hzero]⟩, htotal.trans hsum⟩
    · cases hsome.symm.trans hnone
  · push Not at hfirst
    have hsum := sum_credit_of_no_halt hfirst
    obtain ⟨s, hs, htotal⟩ := exists_sweepRows hm hguards (Nat.le_refl _) (by
      rw [hsum]
      decide)
    have hcredited := credited_of_sweepRows hm hguards (Nat.le_refl _) hs
    refine ⟨p, _, hp, (sweepPoint_eq_some_iff hp).mpr ⟨s, hs, rfl⟩, fun f' hf' => ?_,
      fun _ => htotal.trans hsum⟩
    exact absurd (hcredited.first_eq_some_iff.mp hf') (hfirst f')

theorem haltsOnLaterLosses_of_creditsAvoidable (hm : rows.Matching)
    (hp : pointPolicy (A.machine overflowChecks) debugAssertions fastT slowT revLim = some p)
    (H : rows.CreditsAvoidable (A.machine overflowChecks) debugAssertions fastT slowT revLim) :
    rows.HaltsOnLaterLosses (A.machine overflowChecks) p := by
  intro f hf
  have hguards := pointGuards hp
  obtain ⟨p', r, hp', hr, hsome, _⟩ := H
  cases hp.symm.trans hp'
  obtain ⟨s, hs, rfl⟩ := (sweepPoint_eq_some_iff hp).mp hr
  have hcredited := credited_of_sweepRows hm hguards (Nat.le_refl _) hs
  obtain ⟨⟨s₀, hs₀, hzero₀⟩, htotal⟩ := hsome f (hcredited.first_eq_some_iff.mpr hf)
  have hmod₀ := (credited_of_sweepRows hm hguards (Nat.succ_le_of_lt hf.1) hs₀).total
  have hmod := hcredited.total
  obtain ⟨_, hfits⟩ := hcredited.inRange
  simp only at htotal
  rw [hzero₀, hf.sum_credit_succ] at hmod₀
  have hnonneg := rows.loss_nonneg f
  have hlt := rows.loss_lt f
  have hzero : rows.loss f = 0 := by
    rw [Int.ModEq, Int.emod_eq_of_lt hnonneg hlt] at hmod₀
    omega
  rw [htotal, hf.sum_credit, hzero, Int.zero_add] at hmod
  rw [htotal] at hfits
  refine ⟨hzero, sum_credit_eq_lossAfter_iff.mp ?_, hfits⟩
  -- both sums are below `2 ^ 128`, where residues tell numbers apart
  have hle : ∑ i ∈ Finset.Ico (f + 1) rows.predicted.length,
      rows.credit (A.machine overflowChecks) p i ≤ rows.lossAfter f :=
    Finset.sum_le_sum fun i _ => credit_le_loss i
  have hsum : 0 ≤ ∑ i ∈ Finset.Ico (f + 1) rows.predicted.length,
      rows.credit (A.machine overflowChecks) p i := Finset.sum_nonneg fun i _ => credit_nonneg i
  rw [Int.ModEq, Int.emod_eq_of_lt (by omega) (by omega), Int.emod_eq_of_lt hsum (by omega)] at hmod
  exact hmod.symm

/-- **When the backtest credits only avoidable losses.** In every build and with any `f64`
arithmetic, the total of a grid point leaves out the rows up to the first halt and is the sum of the
losses behind it if and only if the first halting row has no loss, the policy halts on every losing
row behind it, and the sum fits an `i128`. -/
theorem creditsAvoidable_iff (hm : rows.Matching)
    (hp : pointPolicy (A.machine overflowChecks) debugAssertions fastT slowT revLim = some p) :
    rows.CreditsAvoidable (A.machine overflowChecks) debugAssertions fastT slowT revLim ↔
      rows.HaltsOnLaterLosses (A.machine overflowChecks) p :=
  ⟨haltsOnLaterLosses_of_creditsAvoidable hm hp, creditsAvoidable_of_haltsOnLaterLosses hm hp⟩

/-- Three trades that bring at most a quarter of what was predicted, and nothing behind them. -/
def acuteDrift : TradeRows where
  predicted := [.ofInt 100, .ofInt 80, .ofInt 120]
  realized := [.ofInt 10, .ofInt 20, .ofInt 30]
  isRevert := List.replicate 3 false
  gasUsed := []
  gasPrice := []

theorem matching_acuteDrift : acuteDrift.Matching := ⟨rfl, rfl⟩

theorem creditsAvoidable_iff_acuteDrift : ∃ p,
    pointPolicy (Arith.exact.machine true) true (1 / 2) (7 / 10) 3 = some p ∧
    (acuteDrift.CreditsAvoidable (Arith.exact.machine true) true (1 / 2) (7 / 10) 3 ↔
      acuteDrift.HaltsOnLaterLosses (Arith.exact.machine true) p) := by
  have hsome : (pointPolicy (Arith.exact.machine true) true (1 / 2) (7 / 10) 3).isSome := by
    decide +kernel
  obtain ⟨p, hp⟩ := Option.isSome_iff_exists.mp hsome
  exact ⟨p, hp, creditsAvoidable_iff matching_acuteDrift hp⟩

/-- The halt on the last row is credited with the loss of that row. -/
theorem not_creditsAvoidable_acuteDrift : ¬∀ (rows : TradeRows) (overflowChecks : Bool),
    rows.Matching → ∀ (fastT slowT : ℚ), fastT < slowT → ∀ revLim, 1 ≤ revLim →
    rows.CreditsAvoidable (Arith.exact.machine overflowChecks) overflowChecks fastT slowT
      revLim := by
  intro H
  obtain ⟨_, r, _, hr, hsome, _⟩ :=
    H acuteDrift true matching_acuteDrift (1 / 2) (7 / 10) (by norm_num) 3 (by decide)
  have hrun : (acuteDrift.sweepPoint (Arith.exact.machine true) true (1 / 2) (7 / 10) 3).map
      (fun r => (r.firstHaltIndex, r.totalDrawdownPrevented)) = some (some 2, 90) := by
    decide +kernel
  rw [hr, Option.map_some, Option.some.injEq, Prod.mk.injEq] at hrun
  have htotal := (hsome 2 hrun.1).2
  rw [hrun.2, lossAfter] at htotal
  exact absurd htotal (by decide)

end TradeRows

end Driftbrake
