import Driftbrake.Lib.Checked

/-!
# Hexadecimal numerals and byte strings

`fromStrRadix` is the parser of the standard library for unsigned integers, in base 16: one `+` may
stand in front, digits have either case, and the number has to fit. `Numeral` says which texts
denote a number (`fromStrRadix_eq_ok`). `decodePairs` reads a text two bytes at a time, as the
slices of a `str` do, and `Pairs` says which texts denote which bytes (`decodePairs_returns`).

`Nat.toDigits 16` and `encode` write what is read back (`numeral_toDigits`, `pairs_encode`).
-/

namespace Driftbrake

namespace Hex

/-- The value of a digit, `char::to_digit(16)`. -/
def digit? (c : Char) : Option Nat :=
  if '0' ≤ c ∧ c ≤ '9' then some (c.toNat - 48)
  else if 'a' ≤ c ∧ c ≤ 'f' then some (c.toNat - 87)
  else if 'A' ≤ c ∧ c ≤ 'F' then some (c.toNat - 55)
  else none

/-- The number that some digits denote behind those of `acc`. -/
def read (acc : Nat) : List Char → Option Nat
  | [] => some acc
  | c :: cs => do
    let d ← digit? c
    read (acc * 16 + d) cs

inductive ParseError
  | empty
  | invalidDigit
  | posOverflow
deriving DecidableEq, Repr

/-- `read`, as long as the number is below `bound`. -/
def parseFrom (bound acc : Nat) : List Char → Except ParseError Nat
  | [] => .ok acc
  | c :: cs =>
    match digit? c with
    | none => .error .invalidDigit
    | some d =>
      if acc * 16 + d < bound then parseFrom bound (acc * 16 + d) cs
      else .error .posOverflow

/-- `from_str_radix(src, 16)` for an unsigned type with `bound` values. -/
def fromStrRadix (bound : Nat) : List Char → Except ParseError Nat
  | [] => .error .empty
  | ['+'] | ['-'] => .error .invalidDigit
  | '+' :: digits => parseFrom bound 0 digits
  | digits => parseFrom bound 0 digits

/-- The text denotes the number `n`. -/
def Numeral (src : List Char) (n : Nat) : Prop :=
  ∃ digits, digits ≠ [] ∧ (src = digits ∨ src = '+' :: digits) ∧ read 0 digits = some n

variable {bound acc n : Nat} {cs cs' : List Char} {bs : List UInt8}

/-! ## Numbers -/

theorem le_of_read (h : read acc cs = some n) : acc ≤ n := by
  induction cs generalizing acc with
  | nil =>
    cases h
    exact Nat.le_refl _
  | cons c cs ih =>
    obtain ⟨d, -, h⟩ := Option.bind_eq_some_iff.mp h
    have hle := ih h
    omega

/-- A number that fits has fitted all the way. -/
theorem parseFrom_eq_ok (hacc : acc < bound) :
    parseFrom bound acc cs = .ok n ↔ read acc cs = some n ∧ n < bound := by
  induction cs generalizing acc with
  | nil =>
    rw [parseFrom, read, Except.ok.injEq, Option.some.injEq]
    constructor
    · rintro rfl
      exact ⟨rfl, hacc⟩
    · exact And.left
  | cons c cs ih =>
    rw [parseFrom, read]
    cases hd : digit? c with
    | none => simp
    | some d =>
      dsimp only
      rw [Option.bind_eq_bind, Option.bind_some]
      split
      · rename_i hlt
        exact ih hlt
      · rename_i hge
        constructor
        · intro h
          cases h
        · rintro ⟨h, hn⟩
          have hle := le_of_read h
          omega

theorem read_append {m : Nat} (h : read acc cs = some m) :
    read acc (cs ++ cs') = read m cs' := by
  induction cs generalizing acc with
  | nil =>
    cases h
    rfl
  | cons c cs ih =>
    obtain ⟨d, hd, h⟩ := Option.bind_eq_some_iff.mp h
    rw [List.cons_append, read, hd]
    exact ih h

theorem digit?_plus : digit? '+' = none := by decide

theorem digit?_minus : digit? '-' = none := by decide

theorem numeral_plus : Numeral ('+' :: cs) n ↔ cs ≠ [] ∧ read 0 cs = some n := by
  constructor
  · rintro ⟨digits, hne, rfl | heq, hread⟩
    · rw [read, digit?_plus] at hread
      cases hread
    · cases heq
      exact ⟨hne, hread⟩
  · rintro ⟨hne, hread⟩
    exact ⟨cs, hne, .inr rfl, hread⟩

theorem numeral_digits (h : ∀ digits, cs ≠ '+' :: digits) :
    Numeral cs n ↔ cs ≠ [] ∧ read 0 cs = some n := by
  constructor
  · rintro ⟨digits, hne, rfl | rfl, hread⟩
    · exact ⟨hne, hread⟩
    · exact absurd rfl (h digits)
  · rintro ⟨hne, hread⟩
    exact ⟨cs, hne, .inl rfl, hread⟩

/-- The parser accepts the numerals of its type. -/
theorem fromStrRadix_eq_ok (hbound : 0 < bound) :
    fromStrRadix bound cs = .ok n ↔ Numeral cs n ∧ n < bound := by
  unfold fromStrRadix
  split
  · simp [Numeral]
  · simp [numeral_plus]
  · simp [numeral_digits, read, digit?_minus]
  · rename_i digits hne _
    rw [parseFrom_eq_ok hbound, numeral_plus]
    tauto
  · rename_i hnil _ _ hplus
    rw [parseFrom_eq_ok hbound, numeral_digits hplus]
    tauto

/-! ## Writing numbers -/

theorem digit?_digitChar {d : Nat} (hd : d < 16) : digit? d.digitChar = some d := by
  have hall : ∀ d < 16, digit? (Nat.digitChar d) = some d := by decide
  exact hall d hd

theorem read_toDigits (n : Nat) : read 0 (Nat.toDigits 16 n) = some n := by
  induction n using Nat.strongRecOn with
  | ind n ih =>
    rw [Nat.toDigits_eq_if (by decide)]
    split
    · rename_i hlt
      rw [read, digit?_digitChar hlt]
      simp [read]
    · rename_i hge
      rw [read_append (ih (n / 16) (by omega)), read, digit?_digitChar (Nat.mod_lt n (by decide))]
      simp only [Option.bind_eq_bind, Option.bind_some, read]
      congr 1
      omega

theorem read_zeros (k : Nat) (cs : List Char) :
    read 0 (List.replicate k '0' ++ cs) = read 0 cs := by
  induction k with
  | zero => rfl
  | succ k ih => exact ih

theorem numeral_toDigits (n : Nat) : Numeral (Nat.toDigits 16 n) n :=
  ⟨_, Nat.toDigits_ne_nil, .inl rfl, read_toDigits n⟩

/-! ## Bytes -/

/-- The length of a text as UTF-8. -/
def byteLen : List Char → Nat
  | [] => 0
  | c :: cs => c.utf8Size + byteLen cs

/-- The bytes of a text in slices of two bytes. A slice that ends inside a character panics. -/
def decodePairs : List Char → Checked ParseError (List UInt8)
  | [] => pure []
  | c :: cs =>
    -- a character of two bytes is a slice of its own, but no numeral
    if c.utf8Size = 2 then throw .invalidDigit
    else match cs with
    | [] => Checked.panic
    | d :: cs =>
      if c.utf8Size = 1 ∧ d.utf8Size = 1 then do
        let byte ← Checked.ofExcept (fromStrRadix 256 [c, d])
        let rest ← decodePairs cs
        pure (.ofNat byte :: rest)
      else Checked.panic

/-- The text denotes the bytes, each by a numeral of two characters. -/
inductive Pairs : List Char → List UInt8 → Prop
  | nil : Pairs [] []
  | cons {c d : Char} {cs : List Char} {byte : UInt8} {bs : List UInt8} :
      Numeral [c, d] byte.toNat → Pairs cs bs → Pairs (c :: d :: cs) (byte :: bs)

theorem utf8Size_of_le {c : Char} (h : c ≤ 'f') : c.utf8Size = 1 := by
  have hval : 'f'.val ≤ 127 := by decide
  exact Char.utf8Size_eq_one_iff.mpr (UInt32.le_trans h hval)

theorem utf8Size_of_digit? {c : Char} {d : Nat} (h : digit? c = some d) : c.utf8Size = 1 := by
  rw [digit?] at h
  apply utf8Size_of_le
  split at h
  · rename_i hc
    exact Char.le_trans hc.2 (by decide)
  split at h
  · rename_i hc
    exact hc.2
  split at h
  · rename_i hc
    exact Char.le_trans hc.2 (by decide)
  · cases h

/-- The characters of a numeral of two are characters of one byte. -/
theorem utf8Size_of_numeral {c d : Char} (h : Numeral [c, d] n) :
    c.utf8Size = 1 ∧ d.utf8Size = 1 := by
  obtain ⟨digits, -, rfl | heq, hread⟩ := h
  · obtain ⟨x, hx, hread⟩ := Option.bind_eq_some_iff.mp hread
    obtain ⟨y, hy, -⟩ := Option.bind_eq_some_iff.mp hread
    exact ⟨utf8Size_of_digit? hx, utf8Size_of_digit? hy⟩
  · cases heq
    obtain ⟨y, hy, -⟩ := Option.bind_eq_some_iff.mp hread
    exact ⟨by decide, utf8Size_of_digit? hy⟩

/-- What `decodePairs` accepts. -/
theorem decodePairs_returns : (decodePairs cs).Returns bs ↔ Pairs cs bs := by
  fun_induction decodePairs cs generalizing bs with
  | case1 =>
    rw [Checked.returns_pure]
    constructor
    · rintro rfl
      exact .nil
    · rintro ⟨⟩
      rfl
  | case2 c cs hsize =>
    refine ⟨fun h => absurd h Checked.not_returns_throw, ?_⟩
    rintro (_ | ⟨hnum, -⟩)
    have hone := (utf8Size_of_numeral hnum).1
    omega
  | case3 c hsize =>
    refine ⟨fun h => absurd h Checked.not_returns_panic, ?_⟩
    rintro ⟨⟩
  | case4 c hsize d cs hone ih =>
    simp only [Checked.returns_bind, Checked.returns_ofExcept, Checked.returns_pure, ih,
      fromStrRadix_eq_ok (show 0 < 256 by decide)]
    constructor
    · rintro ⟨n, ⟨hnum, hn⟩, bs', hbs', rfl⟩
      refine .cons ?_ hbs'
      rwa [UInt8.toNat_ofNat_of_lt' hn]
    · rintro (_ | ⟨hnum, hbs'⟩)
      rename_i byte bs'
      exact ⟨byte.toNat, ⟨hnum, byte.toNat_lt⟩, bs', hbs', by rw [UInt8.ofNat_toNat]⟩
  | case5 c hsize d cs hone =>
    refine ⟨fun h => absurd h Checked.not_returns_panic, ?_⟩
    rintro (_ | ⟨hnum, -⟩)
    exact absurd (utf8Size_of_numeral hnum) hone

theorem byteLen_of_pairs (h : Pairs cs bs) : byteLen cs = 2 * bs.length := by
  induction h with
  | nil => rfl
  | cons hnum _ ih =>
    obtain ⟨hc, hd⟩ := utf8Size_of_numeral hnum
    simp only [byteLen, List.length_cons] at ih ⊢
    omega

/-! ## Writing bytes -/

/-- `{b:02x}` for every byte. -/
def encode (bytes : List UInt8) : List Char :=
  bytes.flatMap fun b => [Nat.digitChar (b.toNat / 16), Nat.digitChar (b.toNat % 16)]

theorem pairs_encode (bytes : List UInt8) : Pairs (encode bytes) bytes := by
  induction bytes with
  | nil => exact .nil
  | cons b bytes ih =>
    have hb := b.toNat_lt
    refine .cons ⟨_, by simp, .inl rfl, ?_⟩ ih
    rw [read, digit?_digitChar (by omega), Option.bind_eq_bind, Option.bind_some, read,
      digit?_digitChar (Nat.mod_lt _ (by decide)), Option.bind_eq_bind, Option.bind_some, read]
    congr 1
    omega

end Hex

end Driftbrake
