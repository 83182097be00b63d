import KeyCustody.Der.Basic
import Mathlib.Algebra.Group.Nat.Defs
import Mathlib.Data.List.Flatten
import Mathlib.Data.Nat.Log
import Mathlib.Tactic.Common
/-! # Encoded elements there and back

Lengths are written in their shortest form and read as what they are, up to the largest length. So an
element is read back whatever follows it, and a sequence as its members. Natural numbers of any size are
read back too, and how long their bytes are depends on their binary digits. The other way round, what is read
is what would be written: an element has one encoding. -/

namespace KeyCustody

/-! ## Numbers in as few bytes as they need -/

namespace Bytes

theorem lt_pow_widthOf (n : Nat) : n < 256 ^ widthOf n := by
  have hlog : n < 2 ^ (n.log2 + 1) := Nat.lt_log2_self
  have hpow : (256 : Nat) = 2 ^ 8 := rfl
  rw [hpow, ← Nat.pow_mul, widthOf]
  exact Nat.lt_of_lt_of_le hlog (Nat.pow_le_pow_right (by decide) (by omega))

theorem toNat_ofNatShort (n : Nat) : toNat (ofNatShort n) = n := by
  rw [ofNatShort, toNat_ofNat, Nat.pow_eq, Nat.mod_eq_of_lt (lt_pow_widthOf n)]

theorem length_ofNatShort (n : Nat) : (ofNatShort n).length = widthOf n := length_ofNat _ _

theorem widthOf_le {n bits : Nat} (h : n < 2 ^ bits) (hbits : 0 < bits) :
    widthOf n ≤ (bits - 1) / 8 + 1 := by
  have hlog : n.log2 < bits := by
    by_cases hn : n = 0
    · rw [hn]
      exact hbits
    · exact (Nat.log2_lt hn).mpr h
  rw [widthOf]
  omega

theorem toNat_cons_zero (b : Bytes) : toNat (0 :: b) = toNat b := rfl

end Bytes

namespace Der

variable {e : Element} {es : List Element} {n : Nat} {b : Bytes}

/-! ## Lengths -/

theorem maxLength_eq : maxLength = 2 ^ 28 - 1 := by decide

theorem decodeLength?_short (h : n < 0x80) (rest : Bytes) :
    decodeLength? (UInt8.ofNat n :: rest) = some (n, rest) := by
  have hn : (UInt8.ofNat n).toNat = n := by
    rw [UInt8.toNat_ofNat', Nat.mod_eq_of_lt (by omega)]
  have hlt : UInt8.ofNat n < 0x80 := by
    rw [UInt8.lt_iff_toNat_lt, hn]
    exact h
  rw [decodeLength?, if_pos hlt, hn]

theorem decodeLength?_long (hlong : ¬ n < 0x80) (h : n ≤ maxLength) (rest : Bytes) :
    decodeLength? (encodeLength n ++ rest) = some (n, rest) := by
  have hwidth : Bytes.widthOf n ≤ 4 :=
    Bytes.widthOf_le (show n < 2 ^ 32 from Nat.lt_of_le_of_lt h (by decide)) (by decide)
  have hpos : 1 ≤ Bytes.widthOf n := Nat.le_add_left _ _
  have hlength := Bytes.length_ofNatShort n
  have hn : (UInt8.ofNat (0x80 + (Bytes.ofNatShort n).length)).toNat = 0x80 + Bytes.widthOf n := by
    rw [UInt8.toNat_ofNat', hlength, Nat.mod_eq_of_lt (by omega)]
  have hlt : ¬ UInt8.ofNat (0x80 + (Bytes.ofNatShort n).length) < 0x80 := by
    rw [UInt8.lt_iff_toNat_lt, hn]
    change ¬ 128 + Bytes.widthOf n < 128
    omega
  have hencode : encodeLength n =
      UInt8.ofNat (0x80 + (Bytes.ofNatShort n).length) :: Bytes.ofNatShort n := if_neg hlong
  have hcount : 0x80 + Bytes.widthOf n - 0x80 = (Bytes.ofNatShort n).length := by omega
  rw [hencode, List.cons_append, decodeLength?, if_neg hlt, hn, hcount]
  simp only [List.take_left, List.drop_left, Bytes.toNat_ofNatShort]
  rw [if_pos]
  refine ⟨by omega, by omega, ?_, h, hencode⟩
  rw [List.length_append]
  omega

theorem decodeLength?_encodeLength (h : n ≤ maxLength) (rest : Bytes) :
    decodeLength? (encodeLength n ++ rest) = some (n, rest) := by
  by_cases hshort : n < 0x80
  · rw [encodeLength, if_pos hshort]
    exact decodeLength?_short hshort rest
  · exact decodeLength?_long hshort h rest

theorem length_encodeLength_le (n : Nat) : (encodeLength n).length ≤ n + 1 := by
  unfold encodeLength
  split_ifs with h
  · exact Nat.le_add_left _ _
  · have hlog : n.log2 < n := (Nat.log2_lt (by omega)).mpr Nat.lt_two_pow_self
    have hwidth : Bytes.widthOf n ≤ n := by
      rw [Bytes.widthOf]
      omega
    rw [List.length_cons, Bytes.length_ofNatShort]
    omega

theorem length_encodeLength_mono {m n : Nat} (h : m ≤ n) :
    (encodeLength m).length ≤ (encodeLength n).length := by
  have hwidth : Bytes.widthOf m ≤ Bytes.widthOf n := by
    have hlog : m.log2 ≤ n.log2 := by
      rw [Nat.log2_eq_log_two, Nat.log2_eq_log_two]
      exact Nat.log_mono_right h
    simp only [Bytes.widthOf]
    omega
  unfold encodeLength
  split_ifs
  · exact Nat.le_refl _
  · exact Nat.le_add_left _ _
  · omega
  · simpa only [List.length_cons, Bytes.length_ofNatShort, Nat.add_le_add_iff_right] using hwidth

/-! ## Elements -/

theorem Element.length_encode (e : Element) :
    e.encode.length = 1 + (encodeLength e.value.length).length + e.value.length := by
  simp only [encode, List.length_cons, List.length_append]
  omega

theorem Element.length_value_lt (e : Element) : e.value.length < e.encode.length := by
  rw [length_encode]
  omega

theorem Element.length_encode_le (e : Element) : e.encode.length ≤ 2 * e.value.length + 2 := by
  have hlength := length_encodeLength_le e.value.length
  rw [length_encode]
  omega

theorem Element.length_encode_mono {e e' : Element} (h : e.value.length ≤ e'.value.length) :
    e.encode.length ≤ e'.encode.length := by
  have hlength := length_encodeLength_mono h
  rw [length_encode, length_encode]
  omega

/-- The tag and the length of a value of less than four gigabytes take six bytes at most. -/
theorem Element.length_encode_le_add (h : e.value.length < 2 ^ 32) :
    e.encode.length ≤ e.value.length + 6 := by
  have hwidth := Bytes.widthOf_le h (by decide)
  have hlength : (encodeLength e.value.length).length ≤ 5 := by
    unfold encodeLength
    split_ifs
    · exact Nat.le_of_ble_eq_true rfl
    · rw [List.length_cons, Bytes.length_ofNatShort]
      omega
  rw [length_encode]
  omega

theorem Element.length_encode_of_short (h : e.value.length < 0x80) : e.encode.length = e.value.length + 2 := by
  rw [length_encode, encodeLength, if_pos h, List.length_singleton]
  omega

theorem Element.length_encode_of_long (hlow : 2 ^ 24 ≤ e.value.length) (hhigh : e.value.length < 2 ^ 32) :
    e.encode.length = e.value.length + 6 := by
  have hne : e.value.length ≠ 0 := by omega
  have hlog : 24 ≤ e.value.length.log2 := (Nat.le_log2 hne).mpr hlow
  have hlog' : e.value.length.log2 < 32 := (Nat.log2_lt hne).mpr hhigh
  have hlong : ¬ e.value.length < 0x80 := by omega
  rw [length_encode, encodeLength, if_neg hlong, List.length_cons, Bytes.length_ofNatShort, Bytes.widthOf]
  omega

theorem length_sequence_of_short (es : List Element) (h : (es.flatMap Element.encode).length < 0x80) :
    (sequence es).encode.length = (es.flatMap Element.encode).length + 2 := (sequence es).length_encode_of_short h

theorem length_octetString_le (h : b.length < 2 ^ 32) : (octetString b).encode.length ≤ b.length + 6 :=
  (octetString b).length_encode_le_add h

/-- An element is read back, whatever follows it. -/
theorem Element.decode?_encode (hknown : Tag.isKnown e.tag = true)
    (hlength : e.encode.length ≤ maxLength) (rest : Bytes) :
    decode? (e.encode ++ rest) = some (e, rest) := by
  have hvalue : e.value.length ≤ maxLength :=
    Nat.le_of_lt (Nat.lt_of_lt_of_le e.length_value_lt hlength)
  have hencode : e.encode ++ rest = e.tag :: (encodeLength e.value.length ++ (e.value ++ rest)) := by
    simp only [encode, List.cons_append, List.append_assoc]
  have hfits : Tag.isKnown e.tag ∧ e.value.length ≤ (e.value ++ rest).length :=
    ⟨hknown, by rw [List.length_append]; omega⟩
  rw [hencode, decode?, decodeLength?_encodeLength hvalue]
  simp only [Option.bind_eq_bind, Option.bind_some, if_pos hfits, List.take_left, List.drop_left]

theorem length_encode_le_of_mem (h : e ∈ es) :
    e.encode.length ≤ (es.flatMap Element.encode).length := by
  induction es with
  | nil => cases h
  | cons e' es ih =>
    rw [List.flatMap_cons, List.length_append]
    cases h with
    | head => omega
    | tail _ h => exact Nat.le_trans (ih h) (Nat.le_add_left _ _)

theorem length_member_le (h : e ∈ es) : e.encode.length ≤ (sequence es).encode.length := by
  have hmember := length_encode_le_of_mem h
  have hsequence : (es.flatMap Element.encode).length < _ := (sequence es).length_value_lt
  omega

theorem length_value_le_of_mem (h : e ∈ es) : e.value.length ≤ (sequence es).encode.length :=
  Nat.le_trans (Nat.le_of_lt e.length_value_lt) (length_member_le h)

theorem length_sequence_mono {es' : List Element} (h : es.Sublist es') :
    (sequence es).encode.length ≤ (sequence es').encode.length :=
  Element.length_encode_mono (h.flatMap Element.encode).length_le

theorem length_sequence_le (a b : Element) :
    (sequence [a, b]).encode.length ≤ 2 * (a.encode.length + b.encode.length) + 2 := by
  have h := (sequence [a, b]).length_encode_le
  simpa only [sequence, List.flatMap_cons, List.flatMap_nil, List.append_nil, List.length_append]
    using h

theorem length_sequence_le_add {size : Nat} (h : (es.flatMap Element.encode).length ≤ size)
    (hsize : size < 2 ^ 32) : (sequence es).encode.length ≤ size + 6 := by
  have hlength := (sequence es).length_encode_le_add (Nat.lt_of_le_of_lt h hsize)
  exact Nat.le_trans hlength (Nat.add_le_add_right h 6)

theorem elementsUpTo?_flatMap (hknown : ∀ e ∈ es, Tag.isKnown e.tag = true)
    (hlength : ∀ e ∈ es, e.encode.length ≤ maxLength) {count : Nat} (hcount : es.length ≤ count) :
    elementsUpTo? count (es.flatMap Element.encode) = some es := by
  induction es generalizing count with
  | nil => cases count <;> rfl
  | cons e es ih =>
    cases count with
    | zero => cases hcount
    | succ count =>
      have hempty : ¬ (e.encode ++ es.flatMap Element.encode).isEmpty = true := by
        rw [Element.encode]
        exact Bool.false_ne_true
      have hrest := ih (fun e' he' => hknown e' (List.mem_cons_of_mem e he'))
        (fun e' he' => hlength e' (List.mem_cons_of_mem e he')) (Nat.le_of_succ_le_succ hcount)
      rw [List.flatMap_cons, elementsUpTo?, if_neg hempty,
        Element.decode?_encode (hknown e List.mem_cons_self) (hlength e List.mem_cons_self)]
      simp only [Option.bind_eq_bind, Option.bind_some, hrest, Option.pure_def]

theorem length_le_flatMap (es : List Element) : es.length ≤ (es.flatMap Element.encode).length := by
  induction es with
  | nil => exact Nat.le_refl _
  | cons e es ih =>
    rw [List.flatMap_cons, List.length_append, List.length_cons, Element.length_encode]
    omega

theorem Element.members?_sequence (hknown : ∀ e ∈ es, Tag.isKnown e.tag = true)
    (hlength : (sequence es).encode.length ≤ maxLength) : (sequence es).members? = some es := by
  have hvalue : (es.flatMap encode).length ≤ maxLength :=
    Nat.le_of_lt (Nat.lt_of_lt_of_le (sequence es).length_value_lt hlength)
  have hmember : ∀ e ∈ es, e.encode.length ≤ maxLength :=
    fun e he => Nat.le_trans (length_encode_le_of_mem he) hvalue
  simp only [members?, valueOf?, sequence, if_true, Option.bind_eq_bind, Option.bind_some, elements?]
  exact elementsUpTo?_flatMap hknown hmember (length_le_flatMap es)

theorem single?_encode (hknown : Tag.isKnown e.tag = true) (hlength : e.encode.length ≤ maxLength) :
    single? e.encode = some e := by
  have hdecode := Element.decode?_encode hknown hlength []
  rw [List.append_nil] at hdecode
  simp only [single?, hdecode, Option.bind_eq_bind, Option.bind_some, List.isEmpty_nil, true_and,
    if_pos hlength]

theorem members?_sequence (hknown : ∀ e ∈ es, Tag.isKnown e.tag = true)
    (hlength : (sequence es).encode.length ≤ maxLength) :
    members? (sequence es).encode = some es := by
  rw [members?, single?_encode (by rfl) hlength]
  exact Element.members?_sequence hknown hlength

/-! ## Natural numbers -/

theorem toNat_naturalBytes (n : Nat) : Bytes.toNat (naturalBytes n) = n := by
  simp only [naturalBytes]
  split_ifs
  · exact Bytes.toNat_ofNatShort n
  · rw [Bytes.toNat_cons_zero]
    exact Bytes.toNat_ofNatShort n

theorem natural?_natural (n : Nat) : (natural n).natural? = some n := by
  simp only [Element.natural?, Element.valueOf?, natural, if_true, Option.bind_eq_bind,
    Option.bind_some, toNat_naturalBytes]

theorem mapM_natural? (ns : List Nat) : (ns.map natural).mapM Element.natural? = some ns := by
  induction ns with
  | nil => rfl
  | cons n ns ih => simp [natural?_natural, ih]

theorem known_natural {ns : List Nat} (h : e ∈ ns.map natural) : Tag.isKnown e.tag = true := by
  obtain ⟨n, -, rfl⟩ := List.mem_map.mp h
  rfl

theorem length_naturalBytes_le (n : Nat) : (naturalBytes n).length ≤ Bytes.widthOf n + 1 := by
  simp only [naturalBytes]
  split_ifs
  · rw [Bytes.length_ofNatShort]
    omega
  · exact Nat.le_of_eq (by rw [List.length_cons, Bytes.length_ofNatShort])

/-- The encoding of a number of so many binary digits. -/
theorem length_natural_le {bits : Nat} (h : n < 2 ^ bits) (hbits : 0 < bits) (hsmall : bits < 2 ^ 32) :
    (natural n).encode.length ≤ (bits - 1) / 8 + 8 := by
  have hwidth := Bytes.widthOf_le h hbits
  have hvalue : (natural n).value.length ≤ _ := length_naturalBytes_le n
  have hlength := (natural n).length_encode_le_add (by omega)
  omega

/-! ## Encodings that are read -/

theorem decodeLength?_eq_some {rest : Bytes} (h : decodeLength? b = some (n, rest)) :
    b = encodeLength n ++ rest := by
  cases b with
  | nil => cases h
  | cons x tail =>
    by_cases hshort : x < 0x80
    · rw [decodeLength?, if_pos hshort] at h
      cases h
      have hlt : x.toNat < 0x80 := UInt8.lt_iff_toNat_lt.mp hshort
      rw [encodeLength, if_pos hlt, UInt8.ofNat_toNat]
      rfl
    · rw [decodeLength?, if_neg hshort] at h
      simp only at h
      split_ifs at h with hlong
      obtain ⟨rfl, rfl⟩ := Prod.mk.inj (Option.some.inj h)
      rw [hlong.2.2.2.2, List.cons_append, List.take_append_drop]

theorem Element.decode?_eq_some {rest : Bytes} (h : decode? b = some (e, rest)) :
    b = e.encode ++ rest ∧ Tag.isKnown e.tag = true := by
  cases b with
  | nil => cases h
  | cons tag tail =>
    rw [decode?] at h
    obtain ⟨⟨n, after⟩, hlength, h⟩ := Option.bind_eq_some_iff.mp h
    simp only at h
    split_ifs at h with hfits
    obtain ⟨rfl, rfl⟩ := Prod.mk.inj (Option.some.inj h)
    refine ⟨?_, hfits.1⟩
    simp only [decodeLength?_eq_some hlength, encode, List.length_take, Nat.min_eq_left hfits.2,
      List.cons_append, List.append_assoc, List.take_append_drop]

theorem elementsUpTo?_eq_some {count : Nat} (h : elementsUpTo? count b = some es) :
    b = es.flatMap Element.encode ∧ ∀ e ∈ es, Tag.isKnown e.tag = true := by
  induction count generalizing b es with
  | zero =>
    rw [elementsUpTo?] at h
    split_ifs at h with hempty
    · cases h
      exact ⟨List.isEmpty_iff.mp hempty, by simp⟩
  | succ count ih =>
    rw [elementsUpTo?] at h
    split_ifs at h with hempty
    · cases h
      exact ⟨List.isEmpty_iff.mp hempty, by simp⟩
    · obtain ⟨⟨e, rest⟩, hfirst, h⟩ := Option.bind_eq_some_iff.mp h
      obtain ⟨tail, htail, h⟩ := Option.bind_eq_some_iff.mp h
      cases h
      obtain ⟨hb, hknown⟩ := Element.decode?_eq_some hfirst
      obtain ⟨hrest, hknowns⟩ := ih htail
      rw [hb, hrest, List.flatMap_cons]
      exact ⟨rfl, List.forall_mem_cons.mpr ⟨hknown, hknowns⟩⟩

theorem Element.valueOf?_eq_some {tag : UInt8} (h : e.valueOf? tag = some b) : e = ⟨tag, b⟩ := by
  unfold valueOf? at h
  split_ifs at h with htag
  cases h
  rw [← htag]

theorem Element.members?_eq_some (h : e.members? = some es) :
    e = sequence es ∧ ∀ e ∈ es, Tag.isKnown e.tag = true := by
  obtain ⟨value, hvalue, h⟩ := Option.bind_eq_some_iff.mp h
  obtain ⟨rfl, hknown⟩ := elementsUpTo?_eq_some h
  exact ⟨valueOf?_eq_some hvalue, hknown⟩

theorem single?_eq_some (h : single? b = some e) : b = e.encode ∧ b.length ≤ maxLength := by
  obtain ⟨⟨e', rest⟩, hdecode, h⟩ := Option.bind_eq_some_iff.mp h
  simp only at h
  split_ifs at h with hend
  cases h
  obtain ⟨hb, -⟩ := Element.decode?_eq_some hdecode
  rw [List.isEmpty_iff.mp hend.1, List.append_nil] at hb
  exact ⟨hb, hend.2⟩

/-- A byte string has given members exactly if it is the encoding of the sequence of them. -/
theorem members?_eq_some_iff :
    members? b = some es ↔ b = (sequence es).encode ∧ b.length ≤ maxLength ∧
      ∀ e ∈ es, Tag.isKnown e.tag = true := by
  constructor
  · intro h
    obtain ⟨e, hsingle, h⟩ := Option.bind_eq_some_iff.mp h
    obtain ⟨hb, hlength⟩ := single?_eq_some hsingle
    obtain ⟨rfl, hknown⟩ := Element.members?_eq_some h
    exact ⟨hb, hlength, hknown⟩
  · rintro ⟨rfl, hlength, hknown⟩
    exact members?_sequence hknown hlength

theorem wholeBytes?_eq_some {value : Bytes} (h : wholeBytes? value = some b) : value = 0 :: b := by
  obtain ⟨⟨unused, rest⟩, hbits, h⟩ := Option.bind_eq_some_iff.mp h
  simp only at h
  split_ifs at h with hunused
  cases h
  cases value with
  | nil => cases hbits
  | cons x rest' =>
    rw [bits?] at hbits
    split_ifs at hbits
    obtain ⟨hx, rfl⟩ := Prod.mk.inj (Option.some.inj hbits)
    rw [UInt8.toNat_inj.mp (hx.trans hunused : x.toNat = (0 : UInt8).toNat)]

theorem natural?_eq_some (h : e.natural? = some n) : e = natural n := by
  obtain ⟨value, hvalue, h⟩ := Option.bind_eq_some_iff.mp h
  split_ifs at h with hshortest
  cases h
  rw [Element.valueOf?_eq_some hvalue, natural, hshortest]

theorem naturalBelow?_eq_some {bound : Nat} (h : e.naturalBelow? bound = some n) :
    e = natural n ∧ n < bound := by
  obtain ⟨m, hnatural, h⟩ := Option.bind_eq_some_iff.mp h
  split_ifs at h with hbound
  cases h
  exact ⟨natural?_eq_some hnatural, hbound⟩

theorem naturalBelow?_natural {bound : Nat} (h : n < bound) :
    (natural n).naturalBelow? bound = some n := by
  simp only [Element.naturalBelow?, natural?_natural, Option.bind_eq_bind, Option.bind_some, if_pos h]

end Der

end KeyCustody
