import KeyCustody.Proofs.DocumentNames
import KeyCustody.Proofs.NumeralReaders
/-! # Natural numbers in JSON

The decimal digits of a natural number below `2 ^ 64` are read as that number where it ends, so that the text of
an object that holds such numbers is read as that object. -/

namespace KeyCustody

open Text

/-! ## Digits -/

namespace Decimal

theorem bytes_cons_digit {c : Char} (h : c.isDigit = true) (cs : List Char) :
    bytes (c :: cs) = UInt8.ofNat c.toNat :: bytes cs := by
  rw [bytes_cons, utf8EncodeChar_of_lt (Hex.IsDigit.toNat_lt (.inl h))]
  rfl

theorem isDigit_ofNat {c : Char} (h : c.isDigit = true) :
    Json.isDigit (UInt8.ofNat c.toNat) = true ∧
      Json.Number.digitValue (UInt8.ofNat c.toNat) = c.toNat - 48 := by
  have hall : ∀ k < 10, Json.isDigit (UInt8.ofNat (48 + k)) = true ∧
      Json.Number.digitValue (UInt8.ofNat (48 + k)) = k := by
    decide
  simp only [Char.isDigit, Bool.and_eq_true, decide_eq_true_eq] at h
  have hlow : 48 ≤ c.toNat := h.1
  have hhigh : c.toNat ≤ 57 := h.2
  have hdigit := hall (c.toNat - 48) (by omega)
  rwa [Nat.add_sub_cancel' hlow] at hdigit

theorem ofNat_ne_zero {c : Char} (h : c.isDigit = true) (hc : c ≠ '0') : UInt8.ofNat c.toNat ≠ 0x30 := by
  intro heq
  have hvalue : c.toNat - 48 = 0 := by
    rw [← (isDigit_ofNat h).2, heq]
    rfl
  have hchar := (digitChar_value h).2
  rw [hvalue] at hchar
  exact hc hchar.symm

theorem digits_head {n : Nat} {c : Char} {cs : List Char} (h : digits n = c :: cs) :
    (n = 0 ∧ c = '0' ∧ cs = []) ∨ c ≠ '0' := by
  by_cases hn : n = 0
  · subst hn
    cases h
    exact .inl ⟨rfl, rfl, rfl⟩
  · have hvalue : valueOf (digits n) = n := Nat.ofDigitChars_ten_toDigits
    have hzeros := (digits_valueOf fun d hd => digits_isDigit (n := n) hd).2 (by rwa [hvalue])
    rw [hvalue, h, withoutZeros] at hzeros
    refine .inr fun hc => ?_
    subst hc
    have hdrop : ('0' :: cs).dropWhile (· == '0') = cs.dropWhile (· == '0') := rfl
    have hlength := congrArg List.length (hzeros.trans hdrop)
    have hshorter := (List.dropWhile_sublist (· == '0') (l := cs)).length_le
    rw [List.length_cons] at hlength
    omega

theorem le_ofDigitChars (cs : List Char) (value : Nat) : value ≤ Nat.ofDigitChars 10 cs value := by
  induction cs generalizing value with
  | nil => exact Nat.le_refl _
  | cons c cs ih =>
    rw [Nat.ofDigitChars_cons]
    exact Nat.le_trans (by omega) (ih _)

end Decimal

/-! ## Numbers -/

namespace Json

variable {rest : Bytes} {n : Nat}

namespace Number

theorem wholeNumber_ends (h : Ends rest) (n : Nat) : wholeNumber true n rest = .ok (natural n, rest) := by
  unfold wholeNumber
  split
  · exact absurd rfl (h _ rfl).2.1
  · exact absurd rfl (h _ rfl).2.2.1
  · exact absurd rfl (h _ rfl).2.2.2
  · rfl

/-- The digits after the first add up as long as they fit. -/
theorem integerDigits_digits {cs : List Char} {value : Nat} (hcs : ∀ c ∈ cs, c.isDigit = true)
    (hfits : Nat.ofDigitChars 10 cs value ≤ maxSignificand) (h : Ends rest) :
    integerDigits true value (bytes cs ++ rest) = .ok (natural (Nat.ofDigitChars 10 cs value), rest) := by
  induction cs generalizing value with
  | nil =>
    rw [bytes_nil, List.nil_append, Nat.ofDigitChars_nil]
    cases rest with
    | nil => exact wholeNumber_ends h value
    | cons b rest =>
      have hb : ¬ isDigit b = true := Bool.eq_false_iff.mp (h b rfl).1
      rw [integerDigits, if_neg hb]
      exact wholeNumber_ends h value
  | cons c cs ih =>
    obtain ⟨hdigit, hvalue⟩ := Decimal.isDigit_ofNat (hcs c List.mem_cons_self)
    rw [Nat.ofDigitChars_cons, Nat.mul_comm] at hfits ⊢
    have hnext : value * 10 + (c.toNat - 48) ≤ maxSignificand :=
      Nat.le_trans (Decimal.le_ofDigitChars cs _) hfits
    rw [Decimal.bytes_cons_digit (hcs c List.mem_cons_self), List.cons_append, integerDigits, if_pos hdigit,
      hvalue]
    simp only [if_pos hnext]
    exact ih (fun d hd => hcs d (List.mem_cons_of_mem c hd)) hfits

theorem unsigned_cons {b : UInt8} (hdigit : isDigit b = true) (hzero : b ≠ 0x30) (bs : Bytes) :
    unsigned true (b :: bs) = integerDigits true (digitValue b) bs := by
  unfold unsigned
  split
  next heq => cases heq
  next heq => exact absurd (List.cons.inj heq).1 hzero
  next heq =>
    cases heq
    exact if_pos hdigit

theorem unsigned_zero (h : Ends rest) : unsigned true (0x30 :: rest) = .ok (natural 0, rest) := by
  cases rest with
  | nil => rfl
  | cons b rest =>
    have hb : ¬ isDigit b = true := Bool.eq_false_iff.mp (h b rfl).1
    simp only [unsigned, if_neg hb]
    exact wholeNumber_ends h 0

theorem read_digits (hn : n < 2 ^ 64) (h : Ends rest) :
    read (bytes (Decimal.digits n) ++ rest) = .ok (natural n, rest) := by
  obtain ⟨c, cs, hcs⟩ := List.exists_cons_of_ne_nil (Decimal.digits_ne_nil n)
  have hdigits : ∀ d ∈ c :: cs, d.isDigit = true := fun d hd => Decimal.digits_isDigit (hcs ▸ hd)
  obtain ⟨hdigit, hvalue⟩ := Decimal.isDigit_ofNat (hdigits c List.mem_cons_self)
  rw [hcs, Decimal.bytes_cons_digit (hdigits c List.mem_cons_self), List.cons_append, read_digit hdigit]
  obtain ⟨rfl, rfl, rfl⟩ | hc := Decimal.digits_head hcs
  · exact unsigned_zero h
  · have hn' : Nat.ofDigitChars 10 cs (c.toNat - 48) = n := by
      have hall : Nat.ofDigitChars 10 (Decimal.digits n) 0 = n := Nat.ofDigitChars_ten_toDigits
      rwa [hcs, Nat.ofDigitChars_cons, Nat.mul_zero, Nat.zero_add] at hall
    have hfits : Nat.ofDigitChars 10 cs (c.toNat - 48) ≤ maxSignificand := by
      rw [hn', maxSignificand]
      exact Nat.le_sub_one_of_lt hn
    rw [unsigned_cons hdigit (Decimal.ofNat_ne_zero (hdigits c List.mem_cons_self) hc), hvalue]
    exact (integerDigits_digits (fun d hd => hdigits d (List.mem_cons_of_mem c hd)) hfits h).trans
      (by rw [hn'])

end Number

namespace Value

variable {depth : Nat}

theorem read_digit {b : UInt8} (hdigit : isDigit b = true) (bs : Bytes) :
    read depth (b :: bs) = Number.read (b :: bs) >>= fun taken => .ok (.number taken.1, taken.2) := by
  have hother : ∀ c, isDigit c = false → b ≠ c := fun c => ne_of_isDigit hdigit
  have hblank : isBlank b = false := by
    simp [isBlank, hother 0x20 rfl, hother 0x0A rfl, hother 0x09 rfl, hother 0x0D rfl]
  have hsimple : ∀ nested, simple nested (b :: bs) =
      Number.read (b :: bs) >>= fun taken => .ok (.number taken.1, taken.2) := by
    intro nested
    simp only [simple, skipBlanks_cons hblank, if_neg (hother 0x6E rfl), if_neg (hother 0x74 rfl),
      if_neg (hother 0x66 rfl), if_pos (Or.inr hdigit)]
    rfl
  cases depth with
  | zero => exact hsimple _
  | succ depth => exact hsimple _

/-- A natural number is read as itself. -/
theorem reads_natural (depth : Nat) (hn : n < 2 ^ 64) :
    ReadsBefore (read depth) (.number (.natural n)) (.number (.natural n)) := by
  intro rest h
  have hchars : (Value.number (.natural n)).chars = Decimal.digits n := String.toList_ofList
  obtain ⟨c, cs, hcs⟩ := List.exists_cons_of_ne_nil (Decimal.digits_ne_nil n)
  have hc : c.isDigit = true := Decimal.digits_isDigit (hcs ▸ List.mem_cons_self)
  have hread := Number.read_digits hn h
  rw [hchars]
  rw [hcs, Decimal.bytes_cons_digit hc, List.cons_append] at hread ⊢
  rw [read_digit (Decimal.isDigit_ofNat hc).1, hread]
  rfl

/-- The text of an object is read as that object if the values of its members are read as themselves. -/
theorem parse_object {ms : List (String × Value)}
    (h : ∀ m ∈ ms, ReadsBefore (read 126) m.2 m.2) :
    parse (Text.utf8 (object ms).text) = .ok (object ms) :=
  whole_text (reads_object_self h)

end Value

end Json

end KeyCustody
