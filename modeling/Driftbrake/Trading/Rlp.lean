import Driftbrake.Core.Types
import Driftbrake.Lib.PrefixCode

/-!
# RLP

The encoder of the `toy-arbitrage` example. The first byte of an encoding tells a single byte, a
string and a list apart and says how long the string or the list is, so the encoder is a prefix
code (`encode_prefixCode`) on the items whose strings and lists are shorter than `2 ^ 64` bytes.
-/

namespace Driftbrake

namespace Rlp

/-- `rlp::Item`. -/
inductive Item
  | bytes (bytes : List UInt8)
  | list (items : List Item)

def leadingZeroTrim (bytes : List UInt8) : List UInt8 :=
  match bytes.findIdx? (· != 0) with
  | some i => bytes.drop i
  | none => []

namespace Item

def bigUintBytes (bytes : List UInt8) : Item := .bytes (leadingZeroTrim bytes)

def uint (value : U128) : Item := bigUintBytes value.toBeBytes

def address (addr : Vector UInt8 20) : Item := .bytes addr.toList

end Item

/-- `len` is a `usize` of 64 bits. -/
def encodeLengthHeader (len : Nat) (offset : UInt8) : List UInt8 :=
  if len < 56 then [offset + .ofNat len]
  else
    let lenBytes := leadingZeroTrim (toBe 8 len)
    (offset + 55 + .ofNat lenBytes.length) :: lenBytes

def encodeListHeader (len : Nat) : List UInt8 := encodeLengthHeader len 0xc0

def encodeBytes (bytes : List UInt8) : List UInt8 :=
  if bytes.length = 1 ∧ bytes.headD 0 < 0x80 then bytes
  else encodeLengthHeader bytes.length 0x80 ++ bytes

mutual

def encode : Item → List UInt8
  | .bytes bytes => encodeBytes bytes
  | .list items =>
    let payload := encodeAll items
    encodeListHeader payload.length ++ payload

/-- The payload of a list. -/
def encodeAll : List Item → List UInt8
  | [] => []
  | item :: items => encode item ++ encodeAll items

end

theorem encodeAll_eq (items : List Item) : encodeAll items = items.flatMap encode := by
  induction items with
  | nil => rfl
  | cons item items ih => rw [encodeAll, ih, List.flatMap_cons]

theorem encodeAll_append (is js : List Item) :
    encodeAll (is ++ js) = encodeAll is ++ encodeAll js := by
  rw [encodeAll_eq, encodeAll_eq, encodeAll_eq, List.flatMap_append]

/-! ## Integers without leading zeros -/

theorem leadingZeroTrim_cons_zero (bs : List UInt8) :
    leadingZeroTrim (0 :: bs) = leadingZeroTrim bs := by
  simp only [leadingZeroTrim, List.findIdx?_cons, bne_self_eq_false, Bool.false_eq_true, if_false]
  cases bs.findIdx? (· != 0) <;> rfl

theorem leadingZeroTrim_cons_of_ne {b : UInt8} (hb : b ≠ 0) (bs : List UInt8) :
    leadingZeroTrim (b :: bs) = b :: bs := by
  simp [leadingZeroTrim, List.findIdx?_cons, hb]

@[simp] theorem ofBe_leadingZeroTrim (bs : List UInt8) : ofBe (leadingZeroTrim bs) = ofBe bs := by
  induction bs with
  | nil => rfl
  | cons b bs ih =>
    by_cases hb : b = 0
    · rw [hb, leadingZeroTrim_cons_zero, ih, ofBe_cons]
      simp
    · rw [leadingZeroTrim_cons_of_ne hb]

theorem length_leadingZeroTrim_le (bs : List UInt8) :
    (leadingZeroTrim bs).length ≤ bs.length := by
  induction bs with
  | nil => exact Nat.le_refl 0
  | cons b bs ih =>
    by_cases hb : b = 0
    · rw [hb, leadingZeroTrim_cons_zero]
      exact ih.trans (Nat.le_succ _)
    · rw [leadingZeroTrim_cons_of_ne hb]

/-- Numbers of one width are determined by their trimmed bytes. -/
theorem leadingZeroTrim_inj {as bs : List UInt8} (hlen : as.length = bs.length)
    (h : leadingZeroTrim as = leadingZeroTrim bs) : as = bs := by
  have hofBe : ofBe as = ofBe bs := by rw [← ofBe_leadingZeroTrim, h, ofBe_leadingZeroTrim]
  rw [← toBe_ofBe hlen, hofBe, toBe_ofBe rfl]

theorem leadingZeroTrim_ne_nil {bs : List UInt8} (h : 0 < ofBe bs) : leadingZeroTrim bs ≠ [] := by
  intro hnil
  rw [← ofBe_leadingZeroTrim, hnil] at h
  exact Nat.lt_irrefl 0 h

namespace Item

theorem bigUintBytes_inj {as bs : List UInt8} (hlen : as.length = bs.length) :
    bigUintBytes as = bigUintBytes bs ↔ as = bs :=
  ⟨fun h => leadingZeroTrim_inj hlen (Item.bytes.inj h), congrArg bigUintBytes⟩

theorem uint_inj {a b : U128} : uint a = uint b ↔ a = b := by
  rw [uint, uint, bigUintBytes_inj (by rw [U128.length_toBeBytes, U128.length_toBeBytes])]
  refine ⟨fun h => ?_, congrArg U128.toBeBytes⟩
  rw [← U128.fromBeBytes_toBeBytes a, h, U128.fromBeBytes_toBeBytes]

theorem address_inj {a b : Vector UInt8 20} : address a = address b ↔ a = b :=
  ⟨fun h => Vector.toList_inj.mp (Item.bytes.inj h), congrArg address⟩

end Item

/-! ## The first byte -/

/-- The two kinds of header. -/
def Offset (offset : UInt8) : Prop := offset = 0x80 ∨ offset = 0xc0

/-- The first byte holds the length, or the number of the bytes behind it that hold the length. -/
theorem encodeLengthHeader_cases {offset : UInt8} (hoff : Offset offset) {len : Nat}
    (hlen : len < 2 ^ 64) :
    (len < 56 ∧ ∃ b : UInt8, encodeLengthHeader len offset = [b] ∧
      b.toNat = offset.toNat + len) ∨
    (56 ≤ len ∧ ∃ (b : UInt8) (lenBytes : List UInt8),
      encodeLengthHeader len offset = b :: lenBytes ∧
      b.toNat = offset.toNat + 55 + lenBytes.length ∧ 1 ≤ lenBytes.length ∧
      lenBytes.length ≤ 8 ∧ ofBe lenBytes = len) := by
  have hoffset : offset.toNat ≤ 192 := by
    rcases hoff with rfl | rfl
    · decide
    · decide
  by_cases hshort : len < 56
  · refine .inl ⟨hshort, _, if_pos hshort, ?_⟩
    rw [UInt8.toNat_add, UInt8.toNat_ofNat']
    omega
  · have hofBe : ofBe (leadingZeroTrim (toBe 8 len)) = len := by
      rw [ofBe_leadingZeroTrim, ofBe_toBe (by omega)]
    have hle : (leadingZeroTrim (toBe 8 len)).length ≤ 8 :=
      (length_leadingZeroTrim_le _).trans (by rw [length_toBe])
    have hpos : 0 < (leadingZeroTrim (toBe 8 len)).length := by
      apply List.length_pos_of_ne_nil
      apply leadingZeroTrim_ne_nil
      rw [← ofBe_leadingZeroTrim, hofBe]
      omega
    refine .inr ⟨by omega, _, _, if_neg hshort, ?_, hpos, hle, hofBe⟩
    rw [UInt8.toNat_add, UInt8.toNat_add, UInt8.toNat_ofNat', show (55 : UInt8).toNat = 55 from rfl]
    omega

theorem Offset.toNat {offset : UInt8} (hoff : Offset offset) :
    offset.toNat = 128 ∨ offset.toNat = 192 := by
  rcases hoff with rfl | rfl
  · exact .inl rfl
  · exact .inr rfl

theorem encodeLengthHeader_inj {offset offset' : UInt8} {len len' : Nat} {x y : List UInt8}
    (hoff : Offset offset) (hoff' : Offset offset') (hlen : len < 2 ^ 64) (hlen' : len' < 2 ^ 64)
    (h : encodeLengthHeader len offset ++ x = encodeLengthHeader len' offset' ++ y) :
    offset = offset' ∧ len = len' ∧ x = y := by
  have ho := hoff.toNat
  have ho' := hoff'.toNat
  rcases encodeLengthHeader_cases hoff hlen with
    ⟨hshort, b, hb, hbyte⟩ | ⟨hlong, b, lenBytes, hb, hbyte, hpos, hle, hofBe⟩
  · rcases encodeLengthHeader_cases hoff' hlen' with
      ⟨hshort', b', hb', hbyte'⟩ | ⟨hlong', b', lenBytes', hb', hbyte', hpos', hle', -⟩
    · rw [hb, hb'] at h
      obtain ⟨rfl, hrest⟩ := List.cons_eq_cons.mp h
      exact ⟨UInt8.toNat_inj.mp (by omega), by omega, hrest⟩
    · rw [hb, hb'] at h
      obtain ⟨rfl, -⟩ := List.cons_eq_cons.mp h
      omega
  · rcases encodeLengthHeader_cases hoff' hlen' with
      ⟨hshort', b', hb', hbyte'⟩ | ⟨hlong', b', lenBytes', hb', hbyte', hpos', hle', hofBe'⟩
    · rw [hb, hb'] at h
      obtain ⟨rfl, -⟩ := List.cons_eq_cons.mp h
      omega
    · rw [hb, hb'] at h
      obtain ⟨rfl, hrest⟩ := List.cons_eq_cons.mp h
      obtain ⟨rfl, hxy⟩ := List.append_inj hrest (by omega)
      exact ⟨UInt8.toNat_inj.mp (by omega), hofBe.symm.trans hofBe', hxy⟩

/-- A header tells its kind and its length. -/
theorem header_prefixCode :
    PrefixCode (fun header : UInt8 × Nat => Offset header.1 ∧ header.2 < 2 ^ 64)
      fun header => encodeLengthHeader header.2 header.1 := by
  rintro ⟨offset, len⟩ ⟨offset', len'⟩ x y ⟨hoff, hlen⟩ ⟨hoff', hlen'⟩ h
  obtain ⟨rfl, rfl, hxy⟩ := encodeLengthHeader_inj hoff hoff' hlen hlen' h
  exact ⟨rfl, hxy⟩

/-- A header does not start like a byte that stands for itself. -/
theorem encodeLengthHeader_append_ne {offset b : UInt8} (hoff : Offset offset) {len : Nat}
    (hlen : len < 2 ^ 64) (hb : b < 0x80) (x y : List UInt8) :
    encodeLengthHeader len offset ++ x ≠ b :: y := by
  intro h
  have ho := hoff.toNat
  have hlt : b.toNat < 128 := UInt8.lt_iff_toNat_lt.mp hb
  rcases encodeLengthHeader_cases hoff hlen with
    ⟨-, c, hc, hbyte⟩ | ⟨-, c, lenBytes, hc, hbyte, -⟩
  · rw [hc] at h
    obtain ⟨rfl, -⟩ := List.cons_eq_cons.mp h
    omega
  · rw [hc] at h
    obtain ⟨rfl, -⟩ := List.cons_eq_cons.mp h
    omega

/-! ## The code -/

namespace Item

/-- The encoding has a length that a `usize` holds, as every `Vec` has. -/
def Fits (item : Item) : Prop := (encode item).length < 2 ^ 64

instance {item : Item} : Decidable item.Fits := inferInstanceAs (Decidable (_ < _))

/-- A byte that stands for itself, or a header and the word it delimits. -/
def payload : Item → UInt8 × List UInt8
  | .bytes bs => (0x80, bs)
  | .list is => (0xc0, encodeAll is)

/-- A string of one byte below `0x80` is its own encoding. -/
def Bare : Item → Prop
  | .bytes bs => bs.length = 1 ∧ bs.headD 0 < 0x80
  | .list _ => False

theorem offset_payload (item : Item) : Offset item.payload.1 := by
  cases item with
  | bytes bs => exact .inl rfl
  | list is => exact .inr rfl

theorem Bare.eq {item : Item} (h : item.Bare) : ∃ b, item = .bytes [b] ∧ b < 0x80 := by
  cases item with
  | bytes bs =>
    obtain ⟨b, rfl⟩ := List.length_eq_one_iff.mp h.1
    exact ⟨b, rfl, h.2⟩
  | list is => exact h.elim

theorem encode_bare {b : UInt8} (hb : b < 0x80) : encode (.bytes [b]) = [b] := by
  rw [encode, encodeBytes]
  exact if_pos ⟨rfl, hb⟩

theorem encode_of_not_bare {item : Item} (h : ¬item.Bare) :
    encode item = encodeLengthHeader item.payload.2.length item.payload.1 ++ item.payload.2 := by
  cases item with
  | bytes bs =>
    rw [encode, encodeBytes]
    exact if_neg h
  | list is =>
    rw [encode]
    rfl

/-- The payload of an item is no longer than its encoding. -/
theorem Fits.payload {item : Item} (h : item.Fits) : item.payload.2.length < 2 ^ 64 := by
  by_cases hbare : item.Bare
  · obtain ⟨b, rfl, -⟩ := hbare.eq
    exact (Nat.one_lt_two_pow (by omega) : 1 < 2 ^ 64)
  · rw [Fits, encode_of_not_bare hbare, List.length_append] at h
    omega

theorem Fits.of_mem {is : List Item} (h : (list is).Fits) {item : Item} (hmem : item ∈ is) :
    item.Fits := by
  have hpayload : (encodeAll is).length < 2 ^ 64 := h.payload
  rw [encodeAll_eq, List.flatMap_def] at hpayload
  have hsub := List.sublist_flatten_of_mem (List.mem_map_of_mem (f := encode) hmem)
  exact hsub.length_le.trans_lt hpayload

end Item

theorem encode_ne_nil {item : Item} (h : item.Fits) : encode item ≠ [] := by
  by_cases hbare : item.Bare
  · obtain ⟨b, rfl, hb⟩ := hbare.eq
    rw [Item.encode_bare hb]
    exact List.cons_ne_nil _ _
  · rw [Item.encode_of_not_bare hbare]
    rcases encodeLengthHeader_cases item.offset_payload h.payload with
      ⟨-, b, hb, -⟩ | ⟨-, b, lenBytes, hb, -⟩
    · rw [hb]
      exact List.cons_ne_nil _ _
    · rw [hb]
      exact List.cons_ne_nil _ _

/-- An item is determined by its kind and its payload, if its members are by their encodings. -/
theorem eq_of_payload {n : Nat}
    (ih : PrefixCode (fun item : Item => item.Fits ∧ sizeOf item < n) encode) {a b : Item}
    (ha : a.Fits ∧ sizeOf a < n + 1) (hb : b.Fits ∧ sizeOf b < n + 1)
    (h : a.payload = b.payload) : a = b := by
  obtain ⟨hkind, hword⟩ := Prod.ext_iff.mp h
  have hne : (0x80 : UInt8) ≠ 0xc0 := by decide
  have hmembers {js : List Item} (hjs : (Item.list js).Fits ∧ sizeOf (Item.list js) < n + 1) :
      ∀ j ∈ js, j.Fits ∧ sizeOf j < n := by
    intro j hj
    have hlt := List.sizeOf_lt_of_mem hj
    have hsize := hjs.2
    rw [Item.list.sizeOf_spec] at hsize
    exact ⟨hjs.1.of_mem hj, by omega⟩
  cases a with
  | bytes bs =>
    cases b with
    | bytes bs' => exact congrArg Item.bytes hword
    | list js => exact absurd hkind hne
  | list is =>
    cases b with
    | bytes bs' => exact absurd hkind.symm hne
    | list js =>
      have hall : is.flatMap encode = js.flatMap encode := by
        rw [← encodeAll_eq, ← encodeAll_eq]
        exact hword
      rw [ih.flatMap_inj (fun hi => encode_ne_nil hi.1) (hmembers ha) (hmembers hb) hall]

/-- By induction on a bound of the sizes: the members of a list are smaller than the list. -/
theorem encode_prefixCode_of_size (n : Nat) :
    PrefixCode (fun item : Item => item.Fits ∧ sizeOf item < n) encode := by
  induction n with
  | zero =>
    intro a b x y ha
    exact absurd ha.2 (Nat.not_lt_zero _)
  | succ n ih =>
    intro a b x y ha hb h
    by_cases hbareA : a.Bare
    · obtain ⟨c, rfl, hc⟩ := hbareA.eq
      rw [Item.encode_bare hc, List.singleton_append] at h
      by_cases hbareB : b.Bare
      · obtain ⟨d, rfl, hd⟩ := hbareB.eq
        rw [Item.encode_bare hd, List.singleton_append] at h
        obtain ⟨rfl, hxy⟩ := List.cons_eq_cons.mp h
        exact ⟨rfl, hxy⟩
      · rw [Item.encode_of_not_bare hbareB, List.append_assoc] at h
        exact absurd h.symm
          (encodeLengthHeader_append_ne b.offset_payload hb.1.payload hc _ _)
    · rw [Item.encode_of_not_bare hbareA] at h
      by_cases hbareB : b.Bare
      · obtain ⟨d, rfl, hd⟩ := hbareB.eq
        rw [Item.encode_bare hd, List.singleton_append, List.append_assoc] at h
        exact absurd h (encodeLengthHeader_append_ne a.offset_payload ha.1.payload hd _ _)
      · rw [Item.encode_of_not_bare hbareB] at h
        have hpayload : a.payload = b.payload ∧ x = y :=
          header_prefixCode.delimit (a := a.payload) (b := b.payload)
            ⟨a.offset_payload, ha.1.payload⟩ ⟨b.offset_payload, hb.1.payload⟩ h
        exact ⟨eq_of_payload ih ha hb hpayload.1, hpayload.2⟩

theorem encode_prefixCode : PrefixCode Item.Fits encode := by
  intro a b x y ha hb h
  have hle := Nat.le_max_left (sizeOf a) (sizeOf b)
  have hle' := Nat.le_max_right (sizeOf a) (sizeOf b)
  exact encode_prefixCode_of_size (max (sizeOf a) (sizeOf b) + 1)
    ⟨ha, Nat.lt_succ_of_le hle⟩ ⟨hb, Nat.lt_succ_of_le hle'⟩ h

/-- **Encodings are read in one way only**: an encoding tells which item it encodes and where it
ends, whatever follows it, and a sequence of encodings tells the sequence of items. -/
theorem encode_unique :
    (∀ {a b : Item} {x y : List UInt8}, a.Fits → b.Fits →
      (encode a ++ x = encode b ++ y ↔ a = b ∧ x = y)) ∧
    ∀ {is js : List Item}, (∀ i ∈ is, i.Fits) → (∀ j ∈ js, j.Fits) →
      (encodeAll is = encodeAll js ↔ is = js) := by
  constructor
  · intro a b x y ha hb
    refine ⟨encode_prefixCode ha hb, ?_⟩
    rintro ⟨rfl, rfl⟩
    rfl
  · intro is js his hjs
    refine ⟨fun h => ?_, congrArg encodeAll⟩
    rw [encodeAll_eq, encodeAll_eq] at h
    exact encode_prefixCode.flatMap_inj encode_ne_nil his hjs h

/-- `["cat", "dog"]` as a list, against the two strings one after the other. -/
theorem encode_unique_cat_dog :
    encode (.list [.bytes [99, 97, 116], .bytes [100, 111, 103]]) ++ [0x80] ≠
      encode (.bytes [99, 97, 116]) ++ encode (.bytes [100, 111, 103]) := by
  intro h
  have hfits : (Item.list [.bytes [99, 97, 116], .bytes [100, 111, 103]]).Fits := by decide
  have hitem := ((encode_unique.1 hfits (by decide)).mp h).1
  cases hitem

/-! ## Lengths -/

theorem length_encodeLengthHeader_le (len : Nat) (offset : UInt8) :
    (encodeLengthHeader len offset).length ≤ 9 := by
  rw [encodeLengthHeader]
  split
  · simp
  · have := length_leadingZeroTrim_le (toBe 8 len)
    rw [length_toBe] at this
    rw [List.length_cons]
    omega

theorem length_encode_bytes_le (bs : List UInt8) : (encode (.bytes bs)).length ≤ bs.length + 9 := by
  rw [encode, encodeBytes]
  split
  · omega
  · have := length_encodeLengthHeader_le bs.length 0x80
    rw [List.length_append]
    omega

theorem length_encode_list_le (is : List Item) :
    (encode (.list is)).length ≤ (encodeAll is).length + 9 := by
  rw [encode, encodeListHeader, List.length_append]
  have := length_encodeLengthHeader_le (encodeAll is).length 0xc0
  omega

/-- An integer has at most the bytes of its width. -/
theorem length_encode_bigUintBytes_le (bs : List UInt8) :
    (encode (.bigUintBytes bs)).length ≤ bs.length + 9 := by
  have := length_encode_bytes_le (leadingZeroTrim bs)
  have := length_leadingZeroTrim_le bs
  rw [Item.bigUintBytes]
  omega

theorem length_encode_uint_le (value : U128) : (encode (.uint value)).length ≤ 25 := by
  have := length_encode_bigUintBytes_le value.toBeBytes
  rw [U128.length_toBeBytes] at this
  exact this

end Rlp

end Driftbrake
