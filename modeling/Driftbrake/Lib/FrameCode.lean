import Mathlib.Data.List.Infix

/-!
# Streams of self-delimiting frames

A `FrameCode α β` writes each `a : α` as a nonempty word `bytes a` over `β` from which `next` reads
it back, whatever follows. Every word is the encoding of a list of frames followed by a tail that
does not start with a frame (`exists_decodes`), the frames are the longest encoding that is a prefix
of the word (`Decodes.prefix_of_encode`), and a frame cut short is not a frame
(`next_eq_none_of_torn`).
-/

namespace Driftbrake

structure FrameCode (α β : Type) where
  bytes : α → List β
  next : List β → Option (α × List β)
  next_iff : ∀ {bs a rest}, next bs = some (a, rest) ↔ bs = bytes a ++ rest
  bytes_ne_nil : ∀ a, bytes a ≠ []

namespace FrameCode

variable {α β : Type} (C : FrameCode α β) {a : α} {as gs : List α} {bs tail rest : List β}

def encode (as : List α) : List β := as.flatMap C.bytes

@[simp] theorem encode_nil : C.encode [] = [] := rfl

@[simp] theorem encode_cons : C.encode (a :: as) = C.bytes a ++ C.encode as := rfl

@[simp] theorem encode_append : C.encode (as ++ gs) = C.encode as ++ C.encode gs :=
  List.flatMap_append

theorem length_le_length_encode (as : List α) : as.length ≤ (C.encode as).length := by
  induction as with
  | nil => exact Nat.le_refl 0
  | cons a as ih =>
    have := List.length_pos_of_ne_nil (C.bytes_ne_nil a)
    rw [encode_cons, List.length_cons, List.length_append]
    omega

/-- `bs` is the encoding of `as` followed by `tail`, and no frame starts at `tail`. -/
structure Decodes (bs : List β) (as : List α) (tail : List β) : Prop where
  eq : bs = C.encode as ++ tail
  stop : C.next tail = none

variable {C}

theorem next_bytes_append : C.next (C.bytes a ++ rest) = some (a, rest) := C.next_iff.mpr rfl

theorem next_nil : C.next [] = none := by
  by_contra h
  obtain ⟨⟨a, rest⟩, h⟩ := Option.ne_none_iff_exists'.mp h
  exact C.bytes_ne_nil a (List.append_eq_nil_iff.mp (C.next_iff.mp h).symm).1

/-- A strict prefix of a frame does not start with a frame. -/
theorem next_eq_none_of_torn (h : C.bytes a = bs ++ rest) (hr : rest ≠ []) : C.next bs = none := by
  by_contra hn
  obtain ⟨⟨b, more⟩, hn⟩ := Option.ne_none_iff_exists'.mp hn
  have hb : C.next (C.bytes a) = some (b, more ++ rest) := by
    rw [C.next_iff, h, C.next_iff.mp hn, List.append_assoc]
  have ha : C.next (C.bytes a) = some (a, []) := by rw [C.next_iff, List.append_nil]
  rw [ha, Option.some.injEq, Prod.mk.injEq] at hb
  exact hr (List.append_eq_nil_iff.mp hb.2.symm).2

theorem next_take_eq_none {k : Nat} (hk : k < (C.bytes a).length) :
    C.next ((C.bytes a).take k) = none :=
  next_eq_none_of_torn (List.take_append_drop k _).symm (by simpa using hk)

theorem exists_decodes (bs : List β) : ∃ as tail, C.Decodes bs as tail := by
  induction h : bs.length using Nat.strong_induction_on generalizing bs with
  | _ n ih =>
    cases hn : C.next bs with
    | none => exact ⟨[], bs, rfl, hn⟩
    | some r =>
      obtain ⟨a, rest⟩ := r
      have hbs := C.next_iff.mp hn
      have hlt : rest.length < n := by
        have := List.length_pos_of_ne_nil (C.bytes_ne_nil a)
        have hlen := congrArg List.length hbs
        rw [List.length_append] at hlen
        omega
      obtain ⟨as, tail, H⟩ := ih _ hlt rest rfl
      exact ⟨a :: as, tail, by rw [hbs, H.eq, encode_cons, List.append_assoc], H.stop⟩

/-- Every encoding that is a prefix of `bs` encodes a prefix of the frames that `bs` decodes to. -/
theorem Decodes.prefix_of_encode (H : C.Decodes bs as tail) (hp : C.encode gs <+: bs) :
    gs <+: as := by
  induction gs generalizing bs as with
  | nil => exact List.nil_prefix
  | cons g gs ih =>
    obtain ⟨rest, hrest⟩ := hp
    have hn : C.next bs = some (g, C.encode gs ++ rest) := by
      rw [C.next_iff, ← hrest, encode_cons, List.append_assoc]
    cases as with
    | nil =>
      rw [H.eq, encode_nil, List.nil_append, H.stop] at hn
      cases hn
    | cons a as =>
      rw [H.eq, encode_cons, List.append_assoc, next_bytes_append, Option.some.injEq,
        Prod.mk.injEq] at hn
      obtain ⟨rfl, hn⟩ := hn
      exact List.cons_prefix_cons.mpr ⟨rfl, ih ⟨rfl, H.stop⟩ ⟨rest, hn.symm⟩⟩

/-- A word decodes in one way only. -/
theorem Decodes.unique {tail' : List β} (H : C.Decodes bs as tail) (H' : C.Decodes bs gs tail') :
    as = gs := by
  have hle : as <+: gs := H'.prefix_of_encode ⟨tail, H.eq.symm⟩
  have hge : gs <+: as := H.prefix_of_encode ⟨tail', H'.eq.symm⟩
  exact hle.eq_of_length_le hge.length_le

/-- The frames in front of a stream are read before the rest of it. -/
theorem Decodes.encode_append (H : C.Decodes bs as tail) (gs : List α) :
    C.Decodes (C.encode gs ++ bs) (gs ++ as) tail :=
  ⟨by rw [H.eq, FrameCode.encode_append, List.append_assoc], H.stop⟩

theorem decodes_encode (as : List α) : C.Decodes (C.encode as) as [] :=
  ⟨(List.append_nil _).symm, next_nil⟩

end FrameCode

end Driftbrake
