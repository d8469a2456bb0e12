import Mathlib.Data.List.DropRight
import Mathlib.Tactic.Ring

/-!
# Windows of a list

A window is a run of consecutive entries, `w <:+: l`; the last `n` entries are `l.rtake n`.
`tile` lifts a property of every window of length `k` to every window of length `m * k`, and
`exists_prefix_ending` finds the moment at which a window of `l.filterMap f` is the last one.
-/

namespace Driftbrake

variable {α β : Type} {l w : List α} {k m n : Nat}

theorem length_rtake (l : List α) (n : Nat) : (l.rtake n).length = min n l.length := by
  simp only [List.rtake, List.length_drop]
  omega

theorem mem_of_mem_rtake {a : α} (h : a ∈ l.rtake n) : a ∈ l := List.mem_of_mem_drop h

@[simp] theorem rtake_append_length (l w : List α) : (l ++ w).rtake w.length = w := by
  simp [List.rtake]

theorem rtake_of_length_le (h : l.length ≤ n) : l.rtake n = l := by
  simp [List.rtake, Nat.sub_eq_zero_of_le h]

/-- The last entries, latest first. -/
theorem take_reverse_eq (l : List α) (n : Nat) : l.reverse.take n = (l.rtake n).reverse := by
  rw [List.rtake_eq_reverse_take_reverse, List.reverse_reverse]

theorem rtake_suffix (l : List α) (n : Nat) : l.rtake n <:+ l := List.drop_suffix _ _

/-- The last entries of a list are the last entries of every suffix that is long enough. -/
theorem rtake_of_suffix {s : List α} (h : s <:+ l) (hn : n ≤ s.length) : l.rtake n = s.rtake n := by
  obtain ⟨t, rfl⟩ := h
  rw [List.rtake, List.rtake, List.length_append,
    show t.length + s.length - n = t.length + (s.length - n) by omega,
    List.drop_length_add_append]

theorem rtake_rtake (h : n ≤ m) : (l.rtake m).rtake n = l.rtake n := by
  rw [List.rtake, List.rtake, List.drop_drop, List.length_drop, List.rtake]
  congr 1
  omega

theorem map_rtake (f : α → β) (l : List α) (n : Nat) : (l.rtake n).map f = (l.map f).rtake n := by
  rw [List.rtake, List.map_drop, List.rtake, List.length_map]

/-- A condition on a full window holds of a suffix when it holds of the list and the window is
in the suffix. -/
theorem window_suffix_iff {s : List α} {P : List α → Prop} (h : s <:+ l) :
    (n ≤ s.length ∧ P (s.rtake n)) ↔ (n ≤ l.length ∧ P (l.rtake n)) ∧ n ≤ s.length := by
  constructor
  · rintro ⟨hn, hP⟩
    exact ⟨⟨hn.trans h.length_le, rtake_of_suffix h hn ▸ hP⟩, hn⟩
  · rintro ⟨⟨_, hP⟩, hn⟩
    exact ⟨hn, rtake_of_suffix h hn ▸ hP⟩

/-- The windows of length `k` tile every window whose length is a multiple of `k`. -/
theorem tile {P : Nat → List α → Prop} (zero : P 0 [])
    (succ : ∀ {m a w}, P m a → w <:+: l → w.length = k → P (m + 1) (a ++ w))
    (hw : w <:+: l) (hlen : w.length = m * k) : P m w := by
  induction m generalizing w with
  | zero =>
    rw [Nat.zero_mul, List.length_eq_zero_iff] at hlen
    exact hlen ▸ zero
  | succ m ih =>
    have hsplit := List.take_append_drop (m * k) w
    rw [Nat.succ_mul] at hlen
    have ha : (w.take (m * k)).length = m * k := by rw [List.length_take]; omega
    have hd : (w.drop (m * k)).length = k := by rw [List.length_drop]; omega
    rw [← hsplit]
    exact succ (ih ((List.take_prefix _ _).isInfix.trans hw) ha)
      ((List.drop_suffix _ _).isInfix.trans hw) hd

/-- Every window of `l.filterMap f` was once its last entries: those of a prefix of `l`. -/
theorem exists_prefix_ending {f : α → Option β} {w : List β} (h : w <:+: l.filterMap f) :
    ∃ pre, pre <+: l ∧ ∃ before, pre.filterMap f = before ++ w := by
  obtain ⟨before, after, h⟩ := h
  obtain ⟨pre, post, rfl, hpre, _⟩ := List.filterMap_eq_append_iff.mp h.symm
  exact ⟨pre, List.prefix_append _ _, before, hpre⟩

end Driftbrake
