import Mathlib.Data.List.Basic

/-!
# Prefix codes

An encoding of the values with `P` is a prefix code if a word that starts with an encoding starts
with the encoding of one value only (`PrefixCode`). The concatenation of encodings then determines
the values (`flatMap_inj`), and a prefix code of lengths in front of a word of that
length delimits the word (`delimit`).
-/

namespace Driftbrake

variable {α β : Type} {P : α → Prop} {enc : α → List β}

/-- What follows an encoding does not blur where it ends. -/
def PrefixCode (P : α → Prop) (enc : α → List β) : Prop :=
  ∀ {a b x y}, P a → P b → enc a ++ x = enc b ++ y → a = b ∧ x = y

namespace PrefixCode

theorem inj (H : PrefixCode P enc) {a b : α} (ha : P a) (hb : P b) (h : enc a = enc b) : a = b :=
  (H (x := []) (y := []) ha hb (by rw [h])).1

/-- A code for kinds and lengths delimits words of these kinds and lengths. -/
theorem delimit {κ : Type} {P : κ × Nat → Prop} {enc : κ × Nat → List β} (H : PrefixCode P enc) :
    PrefixCode (fun w : κ × List β => P (w.1, w.2.length))
      fun w => enc (w.1, w.2.length) ++ w.2 := by
  rintro ⟨k, a⟩ ⟨l, b⟩ x y ha hb h
  simp only [List.append_assoc] at h
  obtain ⟨hheader, hrest⟩ := H ha hb h
  obtain ⟨rfl, hlen⟩ := Prod.mk.inj hheader
  obtain ⟨rfl, hxy⟩ := List.append_inj hrest hlen
  exact ⟨rfl, hxy⟩

/-- Encodings that are not empty, one after the other, up to the end of the word. -/
theorem flatMap_inj (H : PrefixCode P enc) (hne : ∀ {a}, P a → enc a ≠ []) {as bs : List α}
    (ha : ∀ a ∈ as, P a) (hb : ∀ b ∈ bs, P b) (h : as.flatMap enc = bs.flatMap enc) : as = bs := by
  induction as generalizing bs with
  | nil =>
    cases bs with
    | nil => rfl
    | cons b bs =>
      rw [List.flatMap_nil, List.flatMap_cons] at h
      exact absurd (List.append_eq_nil_iff.mp h.symm).1 (hne (hb b List.mem_cons_self))
  | cons a as ih =>
    rw [List.forall_mem_cons] at ha
    cases bs with
    | nil =>
      rw [List.flatMap_nil, List.flatMap_cons] at h
      exact absurd (List.append_eq_nil_iff.mp h).1 (hne ha.1)
    | cons b bs =>
      rw [List.forall_mem_cons] at hb
      rw [List.flatMap_cons, List.flatMap_cons] at h
      obtain ⟨rfl, hrest⟩ := H ha.1 hb.1 h
      rw [ih ha.2 hb.2 hrest]

end PrefixCode

end Driftbrake
