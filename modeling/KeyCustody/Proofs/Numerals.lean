import KeyCustody.Bytes.Hex
import KeyCustody.Decimal
import KeyCustody.Text.Characters
import Mathlib.Tactic.Common
/-! # Digits there and back

Byte strings in hexadecimal and numbers in decimal digits are read back as what was written. Both kinds
of numerals consist of letters and digits only, so marks and blanks never occur in them. The digits of
numbers in base 256 are bytes. -/

namespace KeyCustody

/-! ## Bytes -/

theorem Bytes.ofNat_toNat {width : Nat} {b : Bytes} (h : b.length = width) :
    ofNat width b.toNat = b := by
  induction width generalizing b with
  | zero => rw [List.length_eq_zero_iff.mp h]; rfl
  | succ width ih =>
    rcases List.eq_nil_or_concat b with rfl | ⟨init, x, rfl⟩
    · cases h
    · have hinit : init.length = width := by simpa using h
      have hx : x.toNat < 256 := x.toNat_lt
      have hbyte : UInt8.ofNat (toNat init * 256 + x.toNat) = x := by
        rw [← UInt8.toNat_inj, UInt8.toNat_ofNat']
        omega
      have hrest : (toNat init * 256 + x.toNat) / 256 = toNat init := by omega
      rw [List.concat_eq_append, toNat_concat, ofNat, hbyte, hrest, ih hinit]

/-! ## Letters and digits -/

theorem Text.isBlank_of_isAlphanum {c : Char} (h : c.isAlphanum = true) : Text.isBlank c = false := by
  have halpha : c.isAlpha = (decide (c.val ≥ 65 ∧ c.val ≤ 90) ||
      (decide (c.val ≥ 97) && decide (c.val ≤ 122))) := by
    rfl
  simp only [Char.isAlphanum, halpha, Char.isDigit, Bool.or_eq_true, Bool.and_eq_true,
    decide_eq_true_eq, UInt32.le_iff_toNat_le, ge_iff_le, Char.toNat_val] at h
  change ((65 ≤ c.toNat ∧ c.toNat ≤ 90) ∨ (97 ≤ c.toNat ∧ c.toNat ≤ 122)) ∨
    (48 ≤ c.toNat ∧ c.toNat ≤ 57) at h
  simp only [Text.isBlank, Bool.or_eq_false_iff, Bool.and_eq_false_iff, decide_eq_false_iff_not,
    beq_eq_false_iff_ne]
  omega

theorem Text.utf8EncodeChar_of_lt {c : Char} (h : c.toNat < 128) :
    String.utf8EncodeChar c = [UInt8.ofNat c.toNat] := by
  unfold String.utf8EncodeChar
  simp only [Char.toNat_val]
  rw [if_pos (by omega)]

/-! ## Hexadecimal digits -/

namespace Hex

/-- A digit is a letter or a figure of one byte, which is read as its value. -/
theorem digit_spec {x : UInt8} (h : x < 16) :
    (digit x).isAlphanum = true ∧ ∃ b, String.utf8EncodeChar (digit x) = [b] ∧ digit? b = some x := by
  have hall : ∀ n < 16, (digit (UInt8.ofNat n)).isAlphanum = true ∧
      (digit (UInt8.ofNat n)).toNat < 128 ∧
      digit? (UInt8.ofNat (digit (UInt8.ofNat n)).toNat) = some (UInt8.ofNat n) := by
    decide
  have hx := hall x.toNat (UInt8.lt_iff_toNat_lt.mp h)
  rw [UInt8.ofNat_toNat] at hx
  exact ⟨hx.1, _, Text.utf8EncodeChar_of_lt hx.2.1, hx.2.2⟩

theorem halves_lt (x : UInt8) : x / 16 < 16 ∧ x % 16 < 16 := by
  have hx : x.toNat < 256 := x.toNat_lt
  rw [UInt8.lt_iff_toNat_lt, UInt8.lt_iff_toNat_lt, UInt8.toNat_div, UInt8.toNat_mod]
  change x.toNat / 16 < 16 ∧ x.toNat % 16 < 16
  omega

theorem halves_add (x : UInt8) : x / 16 * 16 + x % 16 = x := by
  rw [← UInt8.toNat_inj, UInt8.toNat_add, UInt8.toNat_mul, UInt8.toNat_div, UInt8.toNat_mod]
  have hx : x.toNat < 256 := x.toNat_lt
  change (x.toNat / 16 * 16 % 256 + x.toNat % 16) % 256 = x.toNat
  omega

theorem exists_digit_of_mem {b : Bytes} {c : Char} (h : c ∈ encodeChars b) :
    ∃ x, x < 16 ∧ digit x = c := by
  rw [encodeChars, List.mem_flatMap] at h
  obtain ⟨x, -, hc⟩ := h
  have hx := halves_lt x
  simp only [List.mem_cons, List.not_mem_nil, or_false] at hc
  rcases hc with rfl | rfl
  · exact ⟨_, hx.1, rfl⟩
  · exact ⟨_, hx.2, rfl⟩

theorem encodeChars_isAlphanum {b : Bytes} {c : Char} (h : c ∈ encodeChars b) :
    c.isAlphanum = true := by
  obtain ⟨x, hx, rfl⟩ := exists_digit_of_mem h
  exact (digit_spec hx).1

theorem length_utf8_encodeChars (b : Bytes) :
    ((encodeChars b).flatMap String.utf8EncodeChar).length = 2 * b.length := by
  induction b with
  | nil => rfl
  | cons x b ih =>
    obtain ⟨-, h, hh, -⟩ := digit_spec (halves_lt x).1
    obtain ⟨-, l, hl, -⟩ := digit_spec (halves_lt x).2
    change ((digit (x / 16) :: digit (x % 16) :: encodeChars b).flatMap _).length = _
    rw [List.flatMap_cons, List.flatMap_cons, hh, hl]
    simp only [List.cons_append, List.nil_append, List.length_cons, ih]
    omega

theorem decodePairs_encodeChars (index : Nat) (b : Bytes) :
    decodePairs index ((encodeChars b).flatMap String.utf8EncodeChar) = .ok b := by
  induction b generalizing index with
  | nil => rfl
  | cons x b ih =>
    obtain ⟨-, h, hh, hhigh⟩ := digit_spec (halves_lt x).1
    obtain ⟨-, l, hl, hlow⟩ := digit_spec (halves_lt x).2
    change decodePairs index ((digit (x / 16) :: digit (x % 16) :: encodeChars b).flatMap _) = _
    rw [List.flatMap_cons, List.flatMap_cons, hh, hl]
    simp only [List.cons_append, List.nil_append, decodePairs, nibble, hhigh, hlow, ih]
    change Except.ok ((x / 16 * 16 + x % 16) :: b) = _
    rw [halves_add]

theorem decode_encode (b : Bytes) : decode (encode b) = .ok b := by
  unfold decode decodeBytes encode Text.utf8
  rw [String.toList_ofList, length_utf8_encodeChars, if_neg (by omega), decodePairs_encodeChars]

theorem encode_injective : Function.Injective encode := by
  intro a b h
  have hdecode := decode_encode a
  rw [h, decode_encode] at hdecode
  exact (Except.ok.inj hdecode).symm

end Hex

/-! ## Decimal digits -/

namespace Decimal

theorem digits_isDigit {n : Nat} {c : Char} (h : c ∈ digits n) : c.isDigit = true :=
  Nat.isDigit_of_mem_toDigits (by decide) (by decide) h

theorem digits_ne_nil (n : Nat) : digits n ≠ [] := Nat.toDigits_ne_nil

theorem readFrom?_eq {cs : List Char} (h : ∀ c ∈ cs, c.isDigit = true) (value : Nat) :
    readFrom? value cs = some (Nat.ofDigitChars 10 cs value) := by
  induction cs generalizing value with
  | nil => rfl
  | cons c cs ih =>
    have hc : '0' ≤ c ∧ c ≤ '9' := by
      have := h c List.mem_cons_self
      simpa [Char.isDigit, Char.le_def, and_comm] using this
    rw [readFrom?, digit?, if_pos hc, Nat.ofDigitChars_cons, Nat.mul_comm 10 value]
    exact ih (fun d hd => h d (List.mem_cons_of_mem c hd)) _

theorem read?_digits (n : Nat) : read? (digits n) = some n := by
  have hread := readFrom?_eq (fun c hc => digits_isDigit (n := n) hc) 0
  have hvalue : Nat.ofDigitChars 10 (digits n) 0 = n := Nat.ofDigitChars_ten_toDigits
  rw [hvalue] at hread
  unfold read?
  split
  · exact absurd ‹_› (digits_ne_nil n)
  · exact hread

end Decimal

end KeyCustody
