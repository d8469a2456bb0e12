import Driftbrake.Reconcile.Spec

/-!
# The verdict is local

A policy reads the last entries of each view of the history and nothing before them. Its checks
agree on two histories with the same windows, up to the run of reverts that `RevertBurst` reports:
that scan has no bound of its own, but the comparison with the limit needs only as many entries as
the limit (`le_consecutiveReverts_iff`). The results hold of every arithmetic.
-/

namespace Driftbrake

variable {F : Type}

/-- The reason without the count of consecutive reverts. -/
def HaltReason.withoutCount : HaltReason F → HaltReason F
  | .revertBurst _ limit => .revertBurst 0 limit
  | reason => reason

/-- The same reason, except for the count of consecutive reverts. -/
inductive HaltReason.SameExceptCount : HaltReason F → HaltReason F → Prop
  | same (reason : HaltReason F) : SameExceptCount reason reason
  | revertBurst (consecutiveReverts consecutiveReverts' limit : Nat) :
      SameExceptCount (.revertBurst consecutiveReverts limit)
        (.revertBurst consecutiveReverts' limit)

theorem HaltReason.sameExceptCount_of_withoutCount {r r' : HaltReason F}
    (h : r.withoutCount = r'.withoutCount) : r.SameExceptCount r' := by
  cases r <;> cases r' <;> cases h <;> first | exact .same _ | exact .revertBurst ..

def HaltDecision.withoutCount : HaltDecision F → HaltDecision F
  | .continue => .continue
  | .halt reason => .halt reason.withoutCount

namespace ReconcilePolicy

section
variable (p : ReconcilePolicy F)

/-- How many timeline entries the guards on reverts read. -/
def timelineWindow : Nat :=
  max (p.revertBurst.elim 0 (·.limit)) (p.revertGas.elim 0 (·.window))

/-- How many pairs with a positive prediction the guards on ratios read. -/
def ratioWindow : Nat :=
  max (max p.fast.window p.slow.window) (p.volumeWeighted.elim 0 (·.window))

/-- How many pairs the drawdown guard reads. -/
def pairWindow : Nat := p.drawdown.elim 0 (·.window)

/-- The last entries of every view that the enabled guards read are the same. A view shorter than
its window is the same altogether. -/
structure SameWindows (ops ops' : List HistoryEntry) : Prop where
  timeline : ops.rtake p.timelineWindow = ops'.rtake p.timelineWindow
  positivePairs :
    (positivePairs ops).rtake p.ratioWindow = (positivePairs ops').rtake p.ratioWindow
  pairs : (pairsOf ops).rtake p.pairWindow = (pairsOf ops').rtake p.pairWindow

end

/-- What `evaluate` returns, without the count of consecutive reverts, is what it returns for the
checks without that count. -/
theorem firstHalt_map_withoutCount (check : Guard → Option (Option (HaltReason F)))
    (guards : List Guard) :
    (firstHalt check guards).map HaltDecision.withoutCount =
      firstHalt (fun g => (check g).map (Option.map HaltReason.withoutCount)) guards := by
  induction guards with
  | nil => rfl
  | cons guard guards ih =>
    rw [firstHalt, firstHalt]
    rcases check guard with _ | _ | reason
    · rfl
    · exact ih
    · rfl

variable {p : ReconcilePolicy F} {A : Arith F} {ops ops' : List HistoryEntry}

/-- Windows that are equal are equal in all their ends. -/
theorem rtake_eq_of_le {α : Type} {l l' : List α} {m n : Nat} (hn : n ≤ m)
    (h : l.rtake m = l'.rtake m) : l.rtake n = l'.rtake n := by
  rw [← rtake_rtake hn, h, rtake_rtake hn]

/-- The length of a list is seen in its window up to the size of the window. -/
theorem le_length_iff_of_rtake {α : Type} {l l' : List α} {m n : Nat} (hn : n ≤ m)
    (h : l.rtake m = l'.rtake m) : n ≤ l.length ↔ n ≤ l'.length := by
  have := congrArg List.length h
  rw [length_rtake, length_rtake] at this
  omega

theorem SameWindows.revertBurst (H : p.SameWindows ops ops') {c : RevertBurstConfig}
    (hc : p.revertBurst = some c) :
    c.limit ≤ (ReconcileHistory.ofEntries ops).consecutiveReverts ↔
      c.limit ≤ (ReconcileHistory.ofEntries ops').consecutiveReverts := by
  have hle : c.limit ≤ p.timelineWindow := by
    rw [timelineWindow, hc]
    exact Nat.le_max_left _ _
  rw [ReconcileHistory.le_consecutiveReverts_iff, ReconcileHistory.le_consecutiveReverts_iff,
    ReconcileHistory.timeline_ofEntries, ReconcileHistory.timeline_ofEntries,
    le_length_iff_of_rtake hle H.timeline, rtake_eq_of_le hle H.timeline]

theorem SameWindows.revertGas (H : p.SameWindows ops ops') {c : RevertGasConfig}
    (hc : p.revertGas = some c) : ops.rtake c.window = ops'.rtake c.window := by
  refine rtake_eq_of_le ?_ H.timeline
  rw [timelineWindow, hc]
  exact Nat.le_max_right _ _

theorem SameWindows.ratios (H : p.SameWindows ops ops') {n : Nat} (hn : n ≤ p.ratioWindow) :
    ((ReconcileHistory.ofEntries ops).pairs.filter positive).rtake n =
      ((ReconcileHistory.ofEntries ops').pairs.filter positive).rtake n := by
  rw [ReconcileHistory.pairs_ofEntries, ReconcileHistory.pairs_ofEntries]
  exact rtake_eq_of_le hn H.positivePairs

/-- Every check but that of the revert burst is the same. -/
theorem SameWindows.check_eq (H : p.SameWindows ops ops') {g : Guard} (hg : g ≠ .revertBurst) :
    p.check A (.ofEntries ops) g = p.check A (.ofEntries ops') g := by
  cases g with
  | revertBurst => exact absurd rfl hg
  | revertGas =>
    refine revertGasCheck_congr fun c hc => ?_
    rw [ReconcileHistory.timeline_ofEntries, ReconcileHistory.timeline_ofEntries, H.revertGas hc]
  | fast =>
    exact fastCheck_congr (H.ratios ((Nat.le_max_left _ _).trans (Nat.le_max_left _ _)))
  | drawdown =>
    refine drawdownCheck_congr fun c hc => ?_
    rw [ReconcileHistory.pairs_ofEntries, ReconcileHistory.pairs_ofEntries]
    refine rtake_eq_of_le ?_ H.pairs
    rw [pairWindow, hc]
    exact Nat.le_refl _
  | volumeWeighted =>
    refine volumeWeightedCheck_congr fun c hc => H.ratios ?_
    rw [ratioWindow, hc]
    exact Nat.le_max_right _ _
  | slow =>
    exact slowCheck_congr (H.ratios ((Nat.le_max_right _ _).trans (Nat.le_max_left _ _)))

theorem SameWindows.check_withoutCount (H : p.SameWindows ops ops') (g : Guard) :
    (p.check A (.ofEntries ops) g).map (Option.map HaltReason.withoutCount) =
      (p.check A (.ofEntries ops') g).map (Option.map HaltReason.withoutCount) := by
  by_cases hg : g = .revertBurst
  · subst hg
    rw [check, check, revertBurstCheck, revertBurstCheck]
    cases hc : p.revertBurst with
    | none => rfl
    | some burst =>
      simp only [H.revertBurst hc]
      split <;> rfl
  · rw [H.check_eq hg]

theorem SameWindows.evaluate_withoutCount (H : p.SameWindows ops ops') :
    (p.evaluate A (.ofEntries ops)).map HaltDecision.withoutCount =
      (p.evaluate A (.ofEntries ops')).map HaltDecision.withoutCount := by
  rw [evaluate, evaluate, firstHalt_map_withoutCount, firstHalt_map_withoutCount]
  exact congrArg (firstHalt · Guard.order) (funext H.check_withoutCount)

theorem SameWindows.symm (H : p.SameWindows ops ops') : p.SameWindows ops' ops :=
  ⟨H.timeline.symm, H.positivePairs.symm, H.pairs.symm⟩

/-- A halt on one history is a halt on the other, with the same reason except for the count. -/
theorem SameWindows.halt (H : p.SameWindows ops ops') {r : HaltReason F}
    (h : p.evaluate A (.ofEntries ops) = some (.halt r)) :
    ∃ r', p.evaluate A (.ofEntries ops') = some (.halt r') ∧ r.SameExceptCount r' := by
  have hmap := H.evaluate_withoutCount (A := A)
  rw [h] at hmap
  rcases h' : p.evaluate A (.ofEntries ops') with _ | _ | r' <;> rw [h'] at hmap
  · cases hmap
  · cases hmap
  · simp only [Option.map_some, HaltDecision.withoutCount, Option.some.injEq,
      HaltDecision.halt.injEq] at hmap
    exact ⟨r', rfl, HaltReason.sameExceptCount_of_withoutCount hmap⟩

/-- **The verdict is local**: on two sequences of operations that agree on the last entries of the
views, as many as the widest enabled guard of the view reads, `evaluate` halts on one if and only
if it halts on the other, and the two reasons differ at most in the count of consecutive reverts.
It is so in every arithmetic, and a panic on one is a panic on the other. -/
theorem evaluate_local (p : ReconcilePolicy F) (A : Arith F) (ops ops' : List HistoryEntry)
    (H : p.SameWindows ops ops') :
    (p.Halts A (.ofEntries ops) ↔ p.Halts A (.ofEntries ops')) ∧
    (∀ r r', p.evaluate A (.ofEntries ops) = some (.halt r) →
      p.evaluate A (.ofEntries ops') = some (.halt r') → r.SameExceptCount r') ∧
    (p.evaluate A (.ofEntries ops) = none ↔ p.evaluate A (.ofEntries ops') = none) := by
  refine ⟨⟨?_, ?_⟩, ?_, ?_⟩
  · rintro ⟨r, hr⟩
    obtain ⟨r', hr', _⟩ := H.halt hr
    exact ⟨r', hr'⟩
  · rintro ⟨r, hr⟩
    obtain ⟨r', hr', _⟩ := H.symm.halt hr
    exact ⟨r', hr'⟩
  · intro r r' hr hr'
    obtain ⟨r'', hr'', hsame⟩ := H.halt hr
    rw [hr'] at hr''
    cases hr''
    exact hsame
  · have hmap := congrArg Option.isNone (H.evaluate_withoutCount (A := A))
    rw [Option.isNone_map, Option.isNone_map] at hmap
    rw [← Option.isNone_iff_eq_none, hmap, Option.isNone_iff_eq_none]

/-- The shipped windows with a limit of two reverts. -/
def burstOfTwo : ReconcilePolicy ℚ :=
  { defaultDualGuard with
    revertBurst := some ⟨2⟩
    revertBurst_pos := by rintro _ ⟨⟩; exact Nat.two_pos }

/-- Two reverts and three reverts: a burst either way, counted differently. -/
theorem evaluate_local_two_three_reverts :
    (burstOfTwo.Halts Arith.exact (.ofEntries (List.replicate 2 (.revert 1 1))) ↔
      burstOfTwo.Halts Arith.exact (.ofEntries (List.replicate 3 (.revert 1 1)))) ∧
    (∀ r r', burstOfTwo.evaluate Arith.exact (.ofEntries (List.replicate 2 (.revert 1 1))) =
        some (.halt r) →
      burstOfTwo.evaluate Arith.exact (.ofEntries (List.replicate 3 (.revert 1 1))) =
        some (.halt r') → r.SameExceptCount r') ∧
    (burstOfTwo.evaluate Arith.exact (.ofEntries (List.replicate 2 (.revert 1 1))) = none ↔
      burstOfTwo.evaluate Arith.exact (.ofEntries (List.replicate 3 (.revert 1 1))) = none) :=
  evaluate_local burstOfTwo Arith.exact _ _ ⟨rfl, rfl, rfl⟩

end ReconcilePolicy

end Driftbrake
