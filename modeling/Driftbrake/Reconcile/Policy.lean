import Driftbrake.Core.History
import Mathlib.Tactic.NormNum

/-!
# `ReconcilePolicy` and its `evaluate`

The fields of the policy are private in the source, so a policy is a value that its constructors
accept: the structure carries what they assert. `evaluate` is the six sections of the source in
their order, each a check that panics (`none`), passes (`some none`) or trips; a check is only made
when every check before it has passed.
-/

namespace Driftbrake

structure FastGuardConfig (F : Type) where
  threshold : F
  window : Nat

structure SlowGuardConfig (F : Type) where
  threshold : F
  window : Nat

structure RevertBurstConfig where
  limit : Nat

structure RevertGasConfig where
  budgetLimit : U128
  window : Nat

structure VolumeWeightedConfig (F : Type) where
  threshold : F
  window : Nat

structure DrawdownConfig where
  maxDrawdownLimit : I128
  window : Nat

structure ReconcilePolicy (F : Type) where
  fast : FastGuardConfig F
  slow : SlowGuardConfig F
  revertBurst : Option RevertBurstConfig
  revertGas : Option RevertGasConfig
  volumeWeighted : Option (VolumeWeightedConfig F)
  drawdown : Option DrawdownConfig
  fast_pos : 0 < fast.window
  slow_pos : 0 < slow.window
  revertBurst_pos : ∀ {c}, revertBurst = some c → 0 < c.limit
  revertGas_pos : ∀ {c}, revertGas = some c → 0 < c.window
  volumeWeighted_pos : ∀ {c}, volumeWeighted = some c → 0 < c.window
  drawdown_pos : ∀ {c}, drawdown = some c → 0 < c.window

/-- The six guards. -/
inductive Guard
  | revertBurst
  | revertGas
  | fast
  | drawdown
  | volumeWeighted
  | slow
deriving DecidableEq, Repr

/-- The order in which `evaluate` looks at the guards. -/
def Guard.order : List Guard := [.revertBurst, .revertGas, .fast, .drawdown, .volumeWeighted, .slow]

/-- The guard that a reason names. -/
def HaltReason.guard? {F : Type} : HaltReason F → Option Guard
  | .fastGuard .. => some .fast
  | .slowGuard .. => some .slow
  | .revertBurst .. => some .revertBurst
  | .revertGasBudgetExceeded .. => some .revertGas
  | .volumeWeightedDrift .. => some .volumeWeighted
  | .netDrawdownExceeded .. => some .drawdown
  | .custom _ => none

namespace ReconcilePolicy

variable {F : Type}

/-- `ReconcilePolicy::new`; `none` is a failed assertion. The order of the thresholds is only
asserted in a build with debug assertions. -/
def new (A : Arith F) (debugAssertions : Bool) (fast : FastGuardConfig F)
    (slow : SlowGuardConfig F) : Option (ReconcilePolicy F) :=
  if h : 0 < fast.window ∧ 0 < slow.window then
    if debugAssertions && !A.lt fast.threshold slow.threshold then none
    else some {
      fast, slow
      revertBurst := none
      revertGas := none
      volumeWeighted := none
      drawdown := none
      fast_pos := h.1
      slow_pos := h.2
      revertBurst_pos := nofun
      revertGas_pos := nofun
      volumeWeighted_pos := nofun
      drawdown_pos := nofun }
  else none

def withRevertBurst (self : ReconcilePolicy F) (config : RevertBurstConfig) :
    Option (ReconcilePolicy F) :=
  if h : 0 < config.limit then
    some { self with
      revertBurst := some config
      revertBurst_pos := by rintro _ ⟨⟩; exact h }
  else none

def withRevertGas (self : ReconcilePolicy F) (config : RevertGasConfig) :
    Option (ReconcilePolicy F) :=
  if h : 0 < config.window then
    some { self with
      revertGas := some config
      revertGas_pos := by rintro _ ⟨⟩; exact h }
  else none

def withVolumeWeighted (self : ReconcilePolicy F) (config : VolumeWeightedConfig F) :
    Option (ReconcilePolicy F) :=
  if h : 0 < config.window then
    some { self with
      volumeWeighted := some config
      volumeWeighted_pos := by rintro _ ⟨⟩; exact h }
  else none

def withDrawdown (self : ReconcilePolicy F) (config : DrawdownConfig) :
    Option (ReconcilePolicy F) :=
  if h : 0 < config.window then
    some { self with
      drawdown := some config
      drawdown_pos := by rintro _ ⟨⟩; exact h }
  else none

/-- Every policy is what the constructors return for its configurations, in a build without debug
assertions. -/
theorem exists_constructors (A : Arith F) (p : ReconcilePolicy F) :
    (do
      let policy ← new A false p.fast p.slow
      let policy ← p.revertBurst.elim (some policy) policy.withRevertBurst
      let policy ← p.revertGas.elim (some policy) policy.withRevertGas
      let policy ← p.volumeWeighted.elim (some policy) policy.withVolumeWeighted
      p.drawdown.elim (some policy) policy.withDrawdown) = some p := by
  obtain ⟨fast, slow, burst, gas, vw, dd, hf, hs, hb, hg, hv, hd⟩ := p
  cases burst <;> cases gas <;> cases vw <;> cases dd <;>
    simp_all [new, withRevertBurst, withRevertGas, withVolumeWeighted, withDrawdown]

/-- `ReconcilePolicy::default_dual_guard`, with the decimal literals of the source read exactly. -/
def defaultDualGuard : ReconcilePolicy ℚ where
  fast := ⟨1 / 2, 3⟩
  slow := ⟨7 / 10, 20⟩
  revertBurst := none
  revertGas := none
  volumeWeighted := none
  drawdown := none
  fast_pos := by decide
  slow_pos := by decide
  revertBurst_pos := nofun
  revertGas_pos := nofun
  volumeWeighted_pos := nofun
  drawdown_pos := nofun

/-- `ReconcilePolicy::default_dual_guard` with the literals of the source as `f64` reads them. -/
def defaultDualGuardF64 : ReconcilePolicy Float where
  fast := ⟨0.5, 3⟩
  slow := ⟨0.7, 20⟩
  revertBurst := none
  revertGas := none
  volumeWeighted := none
  drawdown := none
  fast_pos := by decide
  slow_pos := by decide
  revertBurst_pos := nofun
  revertGas_pos := nofun
  volumeWeighted_pos := nofun
  drawdown_pos := nofun

theorem new_defaultDualGuard :
    new Arith.exact true ⟨1 / 2, 3⟩ ⟨7 / 10, 20⟩ = some defaultDualGuard := by
  have h : (1 / 2 : ℚ) < 7 / 10 := by norm_num
  simp [new, defaultDualGuard, -one_div, h]

/-! ## The six checks -/

section
variable (self : ReconcilePolicy F) (A : Arith F) (history : ReconcileHistory)

def revertBurstCheck : Option (Option (HaltReason F)) :=
  match self.revertBurst with
  | none => some none
  | some burst =>
    let consecutive := history.consecutiveReverts
    if burst.limit ≤ consecutive then some (some (.revertBurst consecutive burst.limit))
    else some none

def revertGasCheck : Option (Option (HaltReason F)) :=
  match self.revertGas with
  | none => some none
  | some gasCfg => do
    let burned ← history.recentRevertGasBurned A gasCfg.window
    if gasCfg.budgetLimit.toNat < burned then
      some (some (.revertGasBudgetExceeded burned gasCfg.budgetLimit gasCfg.window))
    else some none

def fastCheck : Option (Option (HaltReason F)) :=
  let fastWindow := history.recentRatios A self.fast.window
  if fastWindow.length = self.fast.window ∧
      fastWindow.all fun ratio => A.lt ratio self.fast.threshold then
    some (some (.fastGuard fastWindow self.fast.threshold))
  else some none

def drawdownCheck : Option (Option (HaltReason F)) :=
  match self.drawdown with
  | none => some none
  | some ddCfg =>
    let pairsInWindow := history.pairs.reverse.take ddCfg.window
    if pairsInWindow.length = ddCfg.window then do
      let losses ← pairsInWindow.mapM fun pair => A.subI128 pair.1.val.toInt pair.2.val.toInt
      let netSlippageLoss ← A.sumI128 losses
      if ddCfg.maxDrawdownLimit.toInt < netSlippageLoss then
        some (some (.netDrawdownExceeded netSlippageLoss ddCfg.maxDrawdownLimit ddCfg.window))
      else some none
    else some none

def volumeWeightedCheck : Option (Option (HaltReason F)) :=
  match self.volumeWeighted with
  | none => some none
  | some vwCfg =>
    let validPairs := (history.pairs.reverse.filter positive).take vwCfg.window
    if validPairs.length = vwCfg.window then do
      let totalPredicted ← A.sumI128 (validPairs.map fun pair => pair.1.val.toInt)
      let totalRealized ← A.sumI128 (validPairs.map fun pair => pair.2.val.toInt)
      if 0 < totalPredicted then
        let weightedRatio := A.div (A.ofI128 totalRealized) (A.ofI128 totalPredicted)
        if A.lt weightedRatio vwCfg.threshold then
          some (some (.volumeWeightedDrift weightedRatio vwCfg.threshold vwCfg.window))
        else some none
      else some none
    else some none

def slowCheck : Option (Option (HaltReason F)) :=
  let slowWindow := history.recentRatios A self.slow.window
  if slowWindow.length = self.slow.window then
    let meanRatio := A.div (A.sum slowWindow) (A.ofUsize slowWindow.length)
    if A.lt meanRatio self.slow.threshold then
      some (some (.slowGuard meanRatio self.slow.window self.slow.threshold))
    else some none
  else some none

def check : Guard → Option (Option (HaltReason F))
  | .revertBurst => self.revertBurstCheck history
  | .revertGas => self.revertGasCheck A history
  | .fast => self.fastCheck A history
  | .drawdown => self.drawdownCheck A history
  | .volumeWeighted => self.volumeWeightedCheck A history
  | .slow => self.slowCheck A history

/-- The first of the checks that does not pass decides. -/
def firstHalt (check : Guard → Option (Option (HaltReason F))) :
    List Guard → Option (HaltDecision F)
  | [] => some .continue
  | guard :: guards => do
    match ← check guard with
    | some reason => some (.halt reason)
    | none => firstHalt check guards

/-- `HaltPolicy::evaluate`; `none` is a panic. -/
def evaluate : Option (HaltDecision F) := firstHalt (self.check A history) Guard.order

/-- `evaluate` returns some `HaltDecision::Halt`. -/
def Halts : Prop := ∃ reason, self.evaluate A history = some (.halt reason)

instance : Decidable (self.Halts A history) :=
  match h : self.evaluate A history with
  | some (.halt reason) => .isTrue ⟨reason, h⟩
  | some .continue => .isFalse fun ⟨_, h'⟩ => by rw [h] at h'; cases h'
  | none => .isFalse fun ⟨_, h'⟩ => by rw [h] at h'; cases h'

end

/-! ## What `evaluate` returns in terms of the checks -/

variable {self : ReconcilePolicy F} {A : Arith F} {history : ReconcileHistory}

theorem firstHalt_eq_halt {check : Guard → Option (Option (HaltReason F))} {guards : List Guard}
    {reason : HaltReason F} (h : firstHalt check guards = some (.halt reason)) :
    ∃ before guard after, guards = before ++ guard :: after ∧
      check guard = some (some reason) ∧ ∀ g ∈ before, check g = some none := by
  induction guards with
  | nil => simp [firstHalt] at h
  | cons guard guards ih =>
    rw [firstHalt, Option.bind_eq_bind, Option.bind_eq_some_iff] at h
    obtain ⟨result, hg, h⟩ := h
    cases result with
    | some r =>
      cases h
      exact ⟨[], guard, guards, rfl, hg, nofun⟩
    | none =>
      obtain ⟨before, g, after, rfl, hr, hpass⟩ := ih h
      refine ⟨guard :: before, g, after, rfl, hr, ?_⟩
      rintro g' (_ | ⟨_, hg'⟩)
      · exact hg
      · exact hpass g' hg'

theorem firstHalt_eq_continue {check : Guard → Option (Option (HaltReason F))}
    {guards : List Guard} :
    firstHalt check guards = some .continue ↔ ∀ g ∈ guards, check g = some none := by
  induction guards with
  | nil => simp [firstHalt]
  | cons guard guards ih =>
    rw [firstHalt, List.forall_mem_cons, ← ih]
    rcases check guard with _ | _ | r <;> simp

theorem Guard.mem_order (g : Guard) : g ∈ Guard.order := by cases g <;> simp [Guard.order]

theorem evaluate_eq_continue :
    self.evaluate A history = some .continue ↔ ∀ g, self.check A history g = some none := by
  simp [evaluate, firstHalt_eq_continue, Guard.mem_order]

/-- A check that trips names its own guard. -/
theorem guard?_of_check {g : Guard} {r : HaltReason F}
    (h : self.check A history g = some (some r)) : r.guard? = some g := by
  cases g with
  | revertBurst =>
    rw [check, revertBurstCheck] at h
    grind [HaltReason.guard?, Option.bind_eq_some_iff]
  | revertGas =>
    rw [check, revertGasCheck] at h
    grind [HaltReason.guard?, Option.bind_eq_some_iff]
  | fast =>
    rw [check, fastCheck] at h
    grind [HaltReason.guard?, Option.bind_eq_some_iff]
  | drawdown =>
    rw [check, drawdownCheck] at h
    grind [HaltReason.guard?, Option.bind_eq_some_iff]
  | volumeWeighted =>
    rw [check, volumeWeightedCheck] at h
    grind [HaltReason.guard?, Option.bind_eq_some_iff]
  | slow =>
    rw [check, slowCheck] at h
    grind [HaltReason.guard?, Option.bind_eq_some_iff]

/-- A halt on a guard is what the check of that guard has returned. -/
theorem check_of_halt {g : Guard} {r : HaltReason F}
    (h : self.evaluate A history = some (.halt r)) (hg : r.guard? = some g) :
    self.check A history g = some (some r) := by
  obtain ⟨_, g', _, _, hcheck, _⟩ := firstHalt_eq_halt h
  have hg' := guard?_of_check hcheck
  rw [hg] at hg'
  cases hg'
  exact hcheck

/-- `evaluate` halts and names the guard. -/
def Names (self : ReconcilePolicy F) (A : Arith F) (history : ReconcileHistory) (g : Guard) :
    Prop :=
  ∃ r, self.evaluate A history = some (.halt r) ∧ r.guard? = some g

theorem firstHalt_names_iff {check : Guard → Option (Option (HaltReason F))} {g : Guard}
    {before after : List Guard} (hb : g ∉ before) (ha : g ∉ after)
    (hnames : ∀ g r, check g = some (some r) → r.guard? = some g) :
    (∃ r, firstHalt check (before ++ g :: after) = some (.halt r) ∧ r.guard? = some g) ↔
      (∀ g' ∈ before, check g' = some none) ∧ ∃ r, check g = some (some r) := by
  induction before with
  | nil =>
    rw [List.nil_append, firstHalt]
    rcases hg : check g with _ | _ | r
    · simp
    · -- the guard passes, and a guard behind it is not this one
      simp only [Option.bind_eq_bind, Option.bind_some, reduceCtorEq, exists_false, and_false,
        iff_false, Option.some.injEq, not_exists, not_and]
      intro r hr hguard
      obtain ⟨_, g', _, hsplit, hg', _⟩ := firstHalt_eq_halt hr
      have := hnames g' r hg'
      rw [hguard] at this
      cases this
      exact ha (by simp [hsplit])
    · simp [hnames g r hg]
  | cons b before ih =>
    rw [List.cons_append, firstHalt]
    rcases hcheck : check b with _ | _ | r
    · simp [hcheck]
    · simpa [hcheck] using ih (List.not_mem_of_not_mem_cons hb)
    · have hbg : b ≠ g := fun h => hb (h ▸ List.mem_cons_self)
      simp [hcheck, hnames b r hcheck, hbg]

/-- `evaluate` names a guard when those before it pass and its own check trips. -/
theorem names_iff {g : Guard} {before after : List Guard}
    (horder : Guard.order = before ++ g :: after) :
    self.Names A history g ↔ (∀ g' ∈ before, self.check A history g' = some none) ∧
      ∃ r, self.check A history g = some (some r) := by
  have hnodup : (before ++ g :: after).Nodup := horder ▸ by decide
  obtain ⟨_, hafter, hdisjoint⟩ := List.nodup_append.mp hnodup
  rw [Names, evaluate, horder]
  refine firstHalt_names_iff (fun hg => hdisjoint g hg g List.mem_cons_self rfl) ?_
    fun _ _ => guard?_of_check
  exact (List.nodup_cons.mp hafter).1

/-- A check that trips exactly where `P` holds. -/
def TripsIff (result : Option (Option (HaltReason F))) (P : Prop) : Prop :=
  (result = some none ∧ ¬P) ∨ ∃ r, result = some (some r) ∧ P

section
variable {result : Option (Option (HaltReason F))} {P Q : Prop}

theorem tripsIff_ite [Decidable P] {r : HaltReason F} :
    TripsIff (if P then some (some r) else some none) P := by
  by_cases h : P
  · exact .inr ⟨r, if_pos h, h⟩
  · exact .inl ⟨if_neg h, h⟩

theorem TripsIff.congr (H : TripsIff result P) (h : P ↔ Q) : TripsIff result Q := by
  rwa [← propext h]

theorem TripsIff.trips_iff (H : TripsIff result P) : (∃ r, result = some (some r)) ↔ P := by
  rcases H with ⟨h, hP⟩ | ⟨r, h, hP⟩ <;> simp [h, hP]

theorem TripsIff.passes_iff (H : TripsIff result P) : result = some none ↔ ¬P := by
  rcases H with ⟨h, hP⟩ | ⟨r, h, hP⟩ <;> simp [h, hP]

theorem TripsIff.ne_none (H : TripsIff result P) : result ≠ none := by
  rcases H with ⟨h, _⟩ | ⟨r, h, _⟩ <;> simp [h]

/-- A guard that is not enabled passes. -/
theorem tripsIff_disabled {α : Type} {o : Option α} {P : α → Prop} (h : o = none) :
    TripsIff (some none : Option (Option (HaltReason F))) (∃ c, o = some c ∧ P c) :=
  .inl ⟨rfl, by simp [h]⟩

theorem tripsIff_enabled {α : Type} {o : Option α} {c : α} {P : α → Prop} (h : o = some c)
    (H : TripsIff result (P c)) : TripsIff result (∃ c, o = some c ∧ P c) :=
  H.congr (by simp [h])

/-- A check that passes while its window is not full. -/
theorem tripsIff_window {n : Nat} {α : Type} {l : List α}
    (H : n ≤ l.length → TripsIff result P) :
    TripsIff (if (l.reverse.take n).length = n then result else some none)
      (n ≤ l.length ∧ P) := by
  have hlen : (l.reverse.take n).length = n ↔ n ≤ l.length := by simp
  by_cases h : n ≤ l.length
  · rw [if_pos (hlen.mpr h)]
    exact (H h).congr (by simp [h])
  · rw [if_neg (mt hlen.mp h)]
    exact .inl ⟨rfl, fun hP => h hP.1⟩

end

theorem revertBurstCheck_tripsIff (self : ReconcilePolicy F) (history : ReconcileHistory) :
    TripsIff (self.revertBurstCheck history) (∃ burst, self.revertBurst = some burst ∧
      burst.limit ≤ history.timeline.length ∧
        ∀ e ∈ history.timeline.rtake burst.limit, e.isRevert) := by
  unfold revertBurstCheck
  split
  next h => exact tripsIff_disabled h
  next burst h =>
    refine tripsIff_enabled h (tripsIff_ite.congr ?_)
    rw [ReconcileHistory.le_consecutiveReverts_iff]

/-- Two histories on which every check gives the same result get the same decision. -/
theorem evaluate_congr {history' : ReconcileHistory}
    (h : ∀ g, self.check A history g = self.check A history' g) :
    self.evaluate A history = self.evaluate A history' := by
  rw [evaluate, evaluate, funext h]

/-! ## The windows the checks read

A check reads nothing of the history but the last entries of one of its views. -/

section
variable {history' : ReconcileHistory}

theorem revertGasCheck_congr
    (h : ∀ c, self.revertGas = some c →
      history.timeline.rtake c.window = history'.timeline.rtake c.window) :
    self.revertGasCheck A history = self.revertGasCheck A history' := by
  unfold revertGasCheck
  cases hc : self.revertGas with
  | none => rfl
  | some c =>
    have := congrArg List.reverse (h c hc)
    simp only [List.rtake_eq_reverse_take_reverse, List.reverse_reverse] at this
    simp only [ReconcileHistory.recentRevertGasBurned, this]

theorem recentRatios_congr {n : Nat}
    (h : (history.pairs.filter positive).rtake n = (history'.pairs.filter positive).rtake n) :
    history.recentRatios A n = history'.recentRatios A n := by
  rw [ReconcileHistory.recentRatios_eq, ReconcileHistory.recentRatios_eq, h]

theorem fastCheck_congr
    (h : (history.pairs.filter positive).rtake self.fast.window =
      (history'.pairs.filter positive).rtake self.fast.window) :
    self.fastCheck A history = self.fastCheck A history' := by
  simp only [fastCheck, recentRatios_congr h]

theorem slowCheck_congr
    (h : (history.pairs.filter positive).rtake self.slow.window =
      (history'.pairs.filter positive).rtake self.slow.window) :
    self.slowCheck A history = self.slowCheck A history' := by
  simp only [slowCheck, recentRatios_congr h]

theorem drawdownCheck_congr
    (h : ∀ c, self.drawdown = some c →
      history.pairs.rtake c.window = history'.pairs.rtake c.window) :
    self.drawdownCheck A history = self.drawdownCheck A history' := by
  unfold drawdownCheck
  cases hc : self.drawdown with
  | none => rfl
  | some c =>
    have := congrArg List.reverse (h c hc)
    simp only [List.rtake_eq_reverse_take_reverse, List.reverse_reverse] at this
    simp only [this]

theorem volumeWeightedCheck_congr
    (h : ∀ c, self.volumeWeighted = some c →
      (history.pairs.filter positive).rtake c.window =
        (history'.pairs.filter positive).rtake c.window) :
    self.volumeWeightedCheck A history = self.volumeWeightedCheck A history' := by
  unfold volumeWeightedCheck
  cases hc : self.volumeWeighted with
  | none => rfl
  | some c =>
    have := congrArg List.reverse (h c hc)
    simp only [List.rtake_eq_reverse_take_reverse, List.reverse_reverse] at this
    simp only [List.filter_reverse, this]

end

end ReconcilePolicy

end Driftbrake
