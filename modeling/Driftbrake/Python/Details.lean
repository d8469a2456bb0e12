import Driftbrake.Poller.Burn

/-!
# A halt as Python sees it

`PyHaltDecision::details` puts the figures of a halt into a dictionary. The guards compute them in
`u128` and `i128`, and on the way out they are cut to 64 bits. `figuresReported_iff` says on which
histories the dictionary still has the figures that the guard has compared.
-/

namespace Driftbrake

/-- A Python object. -/
inductive PyValue (F : Type)
  | str (s : String)
  | int (n : Int)
  | float (x : F)
  | list (xs : List F)

/-- `n as u64`. -/
def asU64 (n : Nat) : UInt64 := .ofNat n

/-- `n as i64`. -/
def asI64 (n : Int) : Int64 := .ofInt n

structure PyHaltDecision (F : Type) where
  shouldHalt : Bool
  reasonName : Option String
  decision : HaltDecision F

structure PyReconcilePolicy (F : Type) where
  inner : ReconcilePolicy F

variable {F : Type}

/-- The names that `evaluate` gives the reasons. -/
def HaltReason.name : HaltReason F → String
  | .fastGuard .. => "FastGuard"
  | .slowGuard .. => "SlowGuard"
  | .revertBurst .. => "RevertBurst"
  | .revertGasBudgetExceeded .. => "RevertGasBudgetExceeded"
  | .volumeWeightedDrift .. => "VolumeWeightedDrift"
  | .netDrawdownExceeded .. => "NetDrawdownExceeded"
  | .custom _ => "Custom"

/-- `none` is a panic of the guards. -/
def PyReconcilePolicy.evaluate (self : PyReconcilePolicy F) (A : Arith F)
    (history : ReconcileHistory) : Option (PyHaltDecision F) := do
  match ← self.inner.evaluate A history with
  | .continue => some ⟨false, none, .continue⟩
  | .halt reason => some ⟨true, some reason.name, .halt reason⟩

namespace PyHaltDecision

/-- The items of the dictionary, in the order in which they are set. -/
def details (self : PyHaltDecision F) : List (String × PyValue F) :=
  match self.decision with
  | .continue => []
  | .halt (.fastGuard window threshold) =>
    [("type", .str "FastGuard"), ("threshold", .float threshold), ("recent_ratios", .list window)]
  | .halt (.slowGuard meanRatio windowSize threshold) =>
    [("type", .str "SlowGuard"), ("mean_ratio", .float meanRatio), ("window_size", .int windowSize),
      ("threshold", .float threshold)]
  | .halt (.revertBurst consecutiveReverts limit) =>
    [("type", .str "RevertBurst"), ("consecutive_reverts", .int consecutiveReverts),
      ("limit", .int limit)]
  | .halt (.revertGasBudgetExceeded gasCostBurned budgetLimit window) =>
    [("type", .str "RevertGasBudgetExceeded"),
      ("gas_cost_burned", .int (asU64 gasCostBurned).toNat),
      ("budget_limit", .int (asU64 budgetLimit.toNat).toNat), ("window", .int window)]
  | .halt (.volumeWeightedDrift weightedRatio threshold window) =>
    [("type", .str "VolumeWeightedDrift"), ("weighted_ratio", .float weightedRatio),
      ("threshold", .float threshold), ("window", .int window)]
  | .halt (.netDrawdownExceeded netSlippageLoss maxDrawdownLimit window) =>
    [("type", .str "NetDrawdownExceeded"),
      ("net_slippage_loss", .int (asI64 netSlippageLoss).toInt),
      ("max_drawdown_limit", .int (asI64 maxDrawdownLimit.toInt).toInt), ("window", .int window)]
  | .halt (.custom msg) => [("type", .str "Custom"), ("message", .str msg)]

/-- The dictionary has the figure that a guard has computed and the limit that it is above. -/
structure Reports (d : PyHaltDecision F) (figureKey limitKey : String) (figure limit : Int) :
    Prop where
  figure_eq : d.details.lookup figureKey = some (.int figure)
  limit_eq : d.details.lookup limitKey = some (.int limit)
  limit_lt : limit < figure

/-- The dictionary of a halt on the gas or the drawdown guard has the figures of the guard. -/
def FiguresReported (self : PyHaltDecision F) : Prop :=
  match self.decision with
  | .halt (.revertGasBudgetExceeded burned budget _) =>
    self.Reports "gas_cost_burned" "budget_limit" burned budget.toNat
  | .halt (.netDrawdownExceeded loss limit _) =>
    self.Reports "net_slippage_loss" "max_drawdown_limit" loss limit.toInt
  | _ => True

end PyHaltDecision

/-- What the last reverts have burned, as a `u128`, is a `u64`; the drawdown limit and the slippage
of the last pairs, as an `i128`, are `i64`s, of which the limit cannot be too large and the slippage
cannot be too small. -/
def ReconcilePolicy.FiguresFit (p : ReconcilePolicy F) (history : ReconcileHistory) : Guard → Prop
  | .revertGas => ∀ c, p.revertGas = some c →
    feesBurned (history.timeline.rtake c.window) % 2 ^ 128 < 2 ^ 64
  | .drawdown => ∀ c, p.drawdown = some c → -2 ^ 63 ≤ c.maxDrawdownLimit.toInt ∧
    (I128.ofInt (sumSlippage (history.pairs.rtake c.window))).toInt < 2 ^ 63
  | _ => True

variable {A : Arith F} {p : ReconcilePolicy F} {history : ReconcileHistory} {overflowChecks : Bool}
  {g : Guard} {d : PyHaltDecision F} {reason : HaltReason F}

/-! ## The conversions -/

theorem toNat_asU64_eq_iff {n : Nat} : (asU64 n).toNat = n ↔ n < 2 ^ 64 := by
  rw [asU64, UInt64.toNat_ofNat']
  exact Nat.mod_eq_iff_lt (by decide)

theorem toInt_asI64_eq_iff {n : Int} : (asI64 n).toInt = n ↔ -2 ^ 63 ≤ n ∧ n < 2 ^ 63 := by
  constructor
  · intro H
    rw [← H]
    exact ⟨Int64.le_toInt _, Int64.toInt_lt _⟩
  · intro H
    rw [asI64, Int64.toInt_ofInt]
    exact Int.bmod_eq_of_le (by simp only [Int64.size]; omega) (by simp only [Int64.size]; omega)

/-! ## What the guards compute -/

theorem ReconcileHistory.recentRevertGasBurned_mod {window burned : Nat}
    (h : history.recentRevertGasBurned (A.machine overflowChecks) window = some burned) :
    burned = feesBurned (history.timeline.rtake window) % 2 ^ 128 := by
  rw [recentRevertGasBurned, take_reverse_eq, List.filterMap_reverse, Option.bind_eq_bind,
    Option.bind_eq_some_iff] at h
  obtain ⟨fees, hfees, h⟩ := h
  rw [feesBurned_eq]
  generalize (history.timeline.rtake window).filterMap (·.revert?) = events at hfees ⊢
  have hmod : fees.sum ≡ (events.reverse.map (·.fee)).sum [MOD 2 ^ 128] := by
    refine sum_of_mapM (R := Nat.ModEq (2 ^ 128)) rfl (fun h h' => h.add h')
      (fun event fee hfee => ?_) hfees
    rw [U128.of_result_eq_some hfee]
    exact Nat.mod_modEq _ _
  rw [Arith.mod_of_sumU128 h, hmod, List.map_reverse, List.sum_reverse]

/-- The slippage of the last pairs, as the drawdown guard adds it up. -/
theorem netSlippage_eq {qs : List Pair} {losses : List Int} {loss : Int}
    (hlosses : (qs.reverse.mapM fun pair =>
      (A.machine overflowChecks).subI128 pair.1.val.toInt pair.2.val.toInt) = some losses)
    (h : (A.machine overflowChecks).sumI128 losses = some loss) :
    loss = (I128.ofInt (sumSlippage qs)).toInt := by
  obtain ⟨hrange, hmod⟩ := Arith.modEq_of_sumI128 h
  have hexact : losses.sum ≡ (qs.reverse.map (·.slippage)).sum [ZMOD 2 ^ 128] := by
    refine sum_of_mapM (R := Int.ModEq (2 ^ 128)) rfl (fun h h' => h.add h')
      (fun pair n hn => ?_) hlosses
    exact (I128.of_result_eq_some hn).2
  refine I128.eq_of_modEq hrange (hmod.trans ?_)
  rwa [List.map_reverse, List.sum_reverse] at hexact

namespace ReconcilePolicy

/-- The halts of the gas guard. -/
theorem revertGasCheck_eq_halt (h : p.revertGasCheck A history = some (some reason)) :
    ∃ c burned, p.revertGas = some c ∧
      history.recentRevertGasBurned A c.window = some burned ∧ c.budgetLimit.toNat < burned ∧
      reason = .revertGasBudgetExceeded burned c.budgetLimit c.window := by
  unfold revertGasCheck at h
  split at h
  next => cases h
  next c hc =>
    obtain ⟨burned, hburned, h⟩ := Option.bind_eq_some_iff.mp h
    split at h
    next hlt =>
      cases h
      exact ⟨c, burned, hc, hburned, hlt, rfl⟩
    next => cases h

/-- The halts of the drawdown guard. -/
theorem drawdownCheck_eq_halt (h : p.drawdownCheck A history = some (some reason)) :
    ∃ c losses loss, p.drawdown = some c ∧
      ((history.pairs.rtake c.window).reverse.mapM fun pair =>
        A.subI128 pair.1.val.toInt pair.2.val.toInt) = some losses ∧
      A.sumI128 losses = some loss ∧ c.maxDrawdownLimit.toInt < loss ∧
      reason = .netDrawdownExceeded loss c.maxDrawdownLimit c.window := by
  unfold drawdownCheck at h
  split at h
  next => cases h
  next c hc =>
    dsimp only at h
    split at h
    next =>
      obtain ⟨losses, hlosses, h⟩ := Option.bind_eq_some_iff.mp h
      obtain ⟨loss, hloss, h⟩ := Option.bind_eq_some_iff.mp h
      rw [take_reverse_eq] at hlosses
      split at h
      next hlt =>
        cases h
        exact ⟨c, losses, loss, hc, hlosses, hloss, hlt, rfl⟩
      next => cases h
    next => cases h

end ReconcilePolicy

/-! ## What the dictionary has of them -/

namespace PyHaltDecision

theorem reports_iff {figureKey limitKey : String} {shown shownLimit figure limit : Int}
    (hfigure : d.details.lookup figureKey = some (.int shown))
    (hlimit : d.details.lookup limitKey = some (.int shownLimit)) (hlt : limit < figure) :
    d.Reports figureKey limitKey figure limit ↔ shown = figure ∧ shownLimit = limit := by
  constructor
  · intro h
    have hfigure' := hfigure.symm.trans h.figure_eq
    have hlimit' := hlimit.symm.trans h.limit_eq
    cases hfigure'
    cases hlimit'
    exact ⟨rfl, rfl⟩
  · rintro ⟨rfl, rfl⟩
    exact ⟨hfigure, hlimit, hlt⟩

/-- The budget is below what was burned, so it fits wherever that does. -/
theorem figuresReported_gas {burned window : Nat} {budget : U128}
    (hd : d.decision = .halt (.revertGasBudgetExceeded burned budget window))
    (hlt : budget.toNat < burned) : d.FiguresReported ↔ burned < 2 ^ 64 := by
  have hdetails : d.details = [("type", .str "RevertGasBudgetExceeded"),
      ("gas_cost_burned", .int (asU64 burned).toNat),
      ("budget_limit", .int (asU64 budget.toNat).toNat), ("window", .int window)] := by
    rw [details, hd]
  rw [FiguresReported, hd]
  refine (reports_iff (by rw [hdetails]; rfl) (by rw [hdetails]; rfl)
    (Int.ofNat_lt.mpr hlt)).trans ?_
  rw [Int.ofNat_inj, Int.ofNat_inj, toNat_asU64_eq_iff, toNat_asU64_eq_iff]
  exact and_iff_left_of_imp hlt.trans

/-- The limit is below the loss, so it is enough to bound each on its own side. -/
theorem figuresReported_drawdown {loss : Int} {limit : I128} {window : Nat}
    (hd : d.decision = .halt (.netDrawdownExceeded loss limit window))
    (hlt : limit.toInt < loss) : d.FiguresReported ↔ -2 ^ 63 ≤ limit.toInt ∧ loss < 2 ^ 63 := by
  have hdetails : d.details = [("type", .str "NetDrawdownExceeded"),
      ("net_slippage_loss", .int (asI64 loss).toInt),
      ("max_drawdown_limit", .int (asI64 limit.toInt).toInt), ("window", .int window)] := by
    rw [details, hd]
  rw [FiguresReported, hd]
  refine (reports_iff (by rw [hdetails]; rfl) (by rw [hdetails]; rfl) hlt).trans ?_
  rw [toInt_asI64_eq_iff, toInt_asI64_eq_iff]
  constructor
  · rintro ⟨⟨_, hloss⟩, hlimit, _⟩
    exact ⟨hlimit, hloss⟩
  · rintro ⟨hlimit, hloss⟩
    exact ⟨⟨hlimit.trans hlt.le, hloss⟩, hlimit, hlt.trans hloss⟩

theorem figuresReported_of_ne (d : PyHaltDecision F) (hd : d.decision = .halt reason)
    (hg : reason.guard? = some g) (hgas : g ≠ .revertGas) (hdrawdown : g ≠ .drawdown) :
    d.FiguresReported := by
  rw [FiguresReported, hd]
  cases reason with
  | revertGasBudgetExceeded =>
    cases hg
    exact absurd rfl hgas
  | netDrawdownExceeded =>
    cases hg
    exact absurd rfl hdrawdown
  | _ => trivial

end PyHaltDecision

theorem PyReconcilePolicy.decision_of_evaluate {self : PyReconcilePolicy F}
    (h : self.evaluate A history = some d) : self.inner.evaluate A history = some d.decision := by
  obtain ⟨decision, hdecision, h⟩ := Option.bind_eq_some_iff.mp h
  cases decision <;> cases h <;> exact hdecision

/-- **Which figures reach Python**, on every history on which a guard of the policy halts: the
dictionary has those of the guard exactly when they fit. -/
theorem figuresReported_iff
    (h : (PyReconcilePolicy.mk p).evaluate (A.machine overflowChecks) history = some d)
    (hg : p.Names (A.machine overflowChecks) history g) :
    d.FiguresReported ↔ p.FiguresFit history g := by
  obtain ⟨reason, hhalt, hguard⟩ := hg
  have hd : d.decision = .halt reason := by
    have hdecision := PyReconcilePolicy.decision_of_evaluate h
    rw [hhalt] at hdecision
    exact (Option.some.inj hdecision).symm
  have hcheck := ReconcilePolicy.check_of_halt hhalt hguard
  cases g with
  | revertGas =>
    obtain ⟨c, burned, hc, hburned, hlt, rfl⟩ := ReconcilePolicy.revertGasCheck_eq_halt hcheck
    rw [PyHaltDecision.figuresReported_gas hd hlt,
      ReconcileHistory.recentRevertGasBurned_mod hburned]
    simp [ReconcilePolicy.FiguresFit, hc]
  | drawdown =>
    obtain ⟨c, losses, loss, hc, hlosses, hloss, hlt, rfl⟩ :=
      ReconcilePolicy.drawdownCheck_eq_halt hcheck
    rw [PyHaltDecision.figuresReported_drawdown hd hlt, netSlippage_eq hlosses hloss]
    simp [ReconcilePolicy.FiguresFit, hc]
  | revertBurst | fast | volumeWeighted | slow =>
    exact iff_of_true (d.figuresReported_of_ne hd hguard (by simp) (by simp)) trivial

theorem figuresReported_plain_revert :
    let history := ReconcileHistory.ofEntries [.revert 21000 1000]
    ∃ d, (PyReconcilePolicy.mk ReconcilePolicy.gasPolicy).evaluate (Arith.exact.machine true)
        history = some d ∧ d.FiguresReported := by
  intro history
  have hd : (PyReconcilePolicy.mk ReconcilePolicy.gasPolicy).evaluate (Arith.exact.machine true)
      history = some ⟨true, some "RevertGasBudgetExceeded",
        .halt (.revertGasBudgetExceeded 21000000 (.ofNat 1000000) 3)⟩ := rfl
  refine ⟨_, hd, (figuresReported_iff (g := .revertGas) hd ⟨_, rfl, rfl⟩).mpr ?_⟩
  rintro _ ⟨⟩
  decide +kernel

/-- One unit of gas at a price of `2 ^ 64` wei, some eighteen ether: Python is told that nothing was
burned and that this is above a budget of a million. -/
theorem not_figuresReported_eighteen_ether :
    let history := ReconcileHistory.ofEntries [.revert 1 (2 ^ 64)]
    ReconcilePolicy.gasPolicy.Names (Arith.exact.machine true) history .revertGas ∧
    ∃ d, (PyReconcilePolicy.mk ReconcilePolicy.gasPolicy).evaluate (Arith.exact.machine true)
        history = some d ∧
      d.details.lookup "gas_cost_burned" = some (.int 0) ∧
      d.details.lookup "budget_limit" = some (.int 1000000) ∧ ¬d.FiguresReported := by
  intro history
  have hd : (PyReconcilePolicy.mk ReconcilePolicy.gasPolicy).evaluate (Arith.exact.machine true)
      history = some ⟨true, some "RevertGasBudgetExceeded",
        .halt (.revertGasBudgetExceeded (2 ^ 64) (.ofNat 1000000) 3)⟩ := rfl
  refine ⟨⟨_, rfl, rfl⟩, _, hd, rfl, rfl, fun h => ?_⟩
  have hburned : 2 ^ 64 < 2 ^ 64 := (PyHaltDecision.figuresReported_gas rfl (by decide)).mp h
  exact hburned.false

end Driftbrake
