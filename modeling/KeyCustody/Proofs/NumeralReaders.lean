import KeyCustody.Proofs.Formats
import KeyCustody.Proofs.JsonText
/-! # Which texts are numerals

A text is read as bytes exactly if it consists of pairs of hexadecimal digits, and as a number exactly if it
consists of decimal digits and there is one. Writing what has been read gives the text again in its normal
form: lower case letters in the one case, no leading zeros in the other. -/

namespace KeyCustody

/-! ## Hexadecimal digits -/

namespace Hex

variable {cs : List Char} {c : Char} {b : Bytes}

def IsDigit (c : Char) : Prop :=
  c.isDigit = true ∨ ('a' ≤ c ∧ c ≤ 'f') ∨ ('A' ≤ c ∧ c ≤ 'F')

instance : DecidablePred IsDigit := fun _ => inferInstanceAs (Decidable (_ ∨ _))

/-- A text of pairs of hexadecimal digits. -/
structure IsNumeral (cs : List Char) : Prop where
  even : cs.length % 2 = 0
  digits : ∀ c ∈ cs, IsDigit c

theorem IsDigit.toNat_lt (h : IsDigit c) : c.toNat < 128 := by
  have hle : ∀ d : Char, d.toNat < 128 → c ≤ d → c.toNat < 128 := fun d hd hc =>
    Nat.lt_of_le_of_lt hc hd
  rcases h with h | ⟨-, h⟩ | ⟨-, h⟩
  · simp only [Char.isDigit, Bool.and_eq_true, decide_eq_true_eq] at h
    exact hle '9' (by decide) h.2
  · exact hle 'f' (by decide) h
  · exact hle 'F' (by decide) h

theorem IsDigit.value (h : IsDigit c) :
    ∃ n, n < 16 ∧ digit? (UInt8.ofNat c.toNat) = some n ∧ digit n = c.toLower := by
  have hall : ∀ k < 128, IsDigit (Char.ofNat k) → ∃ n ∈ digit? (UInt8.ofNat k),
      n < 16 ∧ digit n = (Char.ofNat k).toLower := by
    decide
  obtain ⟨n, hn, hlt, hdigit⟩ := hall c.toNat h.toNat_lt (by rwa [Char.ofNat_toNat])
  rw [Char.ofNat_toNat] at hdigit
  exact ⟨n, hlt, hn, hdigit⟩

theorem toNat_lt_of_digit? {b : UInt8} (h : (digit? b).isSome = true) : b.toNat < 128 := by
  have hle : ∀ x : UInt8, x.toNat < 128 → b ≤ x → b.toNat < 128 := fun x hx hb =>
    Nat.lt_of_le_of_lt (UInt8.le_iff_toNat_le.mp hb) hx
  unfold digit? at h
  split_ifs at h with hfigure hsmall hcapital
  · exact hle 57 (by decide) hfigure.2
  · exact hle 102 (by decide) hsmall.2
  · exact hle 70 (by decide) hcapital.2
  · cases h

theorem isDigit_of_bytes (h : ∀ b ∈ String.utf8EncodeChar c, (digit? b).isSome = true) : IsDigit c := by
  have hall : ∀ k < 128, (digit? (UInt8.ofNat k)).isSome = true → IsDigit (Char.ofNat k) := by
    decide
  have hlt : c.toNat < 128 := by
    by_contra hc
    obtain ⟨b, bs, hb⟩ := List.exists_cons_of_ne_nil (String.utf8EncodeChar_ne_nil (c := c))
    have hmem : b ∈ String.utf8EncodeChar c := hb ▸ List.mem_cons_self
    exact absurd (toNat_lt_of_digit? (h b hmem)) (Nat.not_lt.mpr (Text.le_of_mem_utf8EncodeChar hc hmem))
  have hdigit := hall c.toNat hlt (h _ (by rw [Text.utf8EncodeChar_of_lt hlt]; exact List.mem_singleton.mpr rfl))
  rwa [Char.ofNat_toNat] at hdigit

theorem length_utf8_of_digits (h : ∀ c ∈ cs, IsDigit c) :
    (cs.flatMap String.utf8EncodeChar).length = cs.length := by
  induction cs with
  | nil => rfl
  | cons c cs ih =>
    rw [List.flatMap_cons, Text.utf8EncodeChar_of_lt (h c List.mem_cons_self).toNat_lt, List.length_append,
      ih fun d hd => h d (List.mem_cons_of_mem c hd), List.length_singleton, List.length_cons, Nat.add_comm]

/-- Pairs of digits are read as the bytes that are written as their lower case. -/
theorem decodePairs_digits (index : Nat) : {cs : List Char} → cs.length % 2 = 0 →
    (∀ c ∈ cs, IsDigit c) →
    ∃ b, decodePairs index (cs.flatMap String.utf8EncodeChar) = .ok b ∧ encodeChars b = cs.map Char.toLower
  | [], _, _ => ⟨[], rfl, rfl⟩
  | [_], heven, _ => nomatch heven
  | high :: low :: cs, heven, h => by
    have hhigh := h high List.mem_cons_self
    have hlow := h low (List.mem_cons_of_mem _ List.mem_cons_self)
    obtain ⟨x, hx, hxvalue, hxdigit⟩ := hhigh.value
    obtain ⟨y, hy, hyvalue, hydigit⟩ := hlow.value
    have heven' : cs.length % 2 = 0 := by
      simp only [List.length_cons] at heven
      omega
    obtain ⟨b, hb, hencode⟩ := decodePairs_digits (index + 2) heven' fun c hc =>
      h c (List.mem_cons_of_mem _ (List.mem_cons_of_mem _ hc))
    have hhalves : (x * 16 + y) / 16 = x ∧ (x * 16 + y) % 16 = y := by
      rw [UInt8.lt_iff_toNat_lt] at hx hy
      change x.toNat < 16 at hx
      change y.toNat < 16 at hy
      rw [← UInt8.toNat_inj, ← UInt8.toNat_inj, UInt8.toNat_div, UInt8.toNat_mod, UInt8.toNat_add,
        UInt8.toNat_mul]
      change (x.toNat * 16 % 256 + y.toNat) % 256 / 16 = x.toNat ∧
        (x.toNat * 16 % 256 + y.toNat) % 256 % 16 = y.toNat
      omega
    refine ⟨(x * 16 + y) :: b, ?_, ?_⟩
    · simp only [List.flatMap_cons, Text.utf8EncodeChar_of_lt hhigh.toNat_lt,
        Text.utf8EncodeChar_of_lt hlow.toNat_lt, List.cons_append, List.nil_append, decodePairs, nibble, hxvalue,
        hyvalue, hb]
      rfl
    · rw [encodeChars, List.flatMap_cons, hhalves.1, hhalves.2, hxdigit, hydigit]
      exact congrArg (fun ds => high.toLower :: low.toLower :: ds) hencode

theorem isNumeral_of_decode (h : decode (String.ofList cs) = .ok b) : IsNumeral cs := by
  unfold decode decodeBytes Text.utf8 at h
  rw [String.toList_ofList] at h
  split_ifs at h with hodd
  have hbytes := isSome_of_decodePairs (Nat.mod_two_ne_one.mp hodd) h
  have hdigits : ∀ c ∈ cs, IsDigit c := fun c hc =>
    isDigit_of_bytes fun b hb => hbytes b (List.mem_flatMap.mpr ⟨c, hc, hb⟩)
  rw [length_utf8_of_digits hdigits] at hodd
  exact ⟨Nat.mod_two_ne_one.mp hodd, hdigits⟩

theorem IsNumeral.decode_eq_ok (h : IsNumeral cs) :
    ∃ b, decode (String.ofList cs) = .ok b ∧ encodeChars b = cs.map Char.toLower := by
  obtain ⟨b, hb, hencode⟩ := decodePairs_digits 0 h.even h.digits
  refine ⟨b, ?_, hencode⟩
  unfold decode decodeBytes Text.utf8
  rw [String.toList_ofList, length_utf8_of_digits h.digits, if_neg (by rw [h.even]; decide), hb]

/-- A text is read as some bytes exactly if it consists of pairs of digits and is, in lower case, what is
written for them. -/
theorem decode_ofList_eq_ok :
    decode (String.ofList cs) = .ok b ↔ IsNumeral cs ∧ encodeChars b = cs.map Char.toLower := by
  constructor
  · intro h
    have hnumeral := isNumeral_of_decode h
    obtain ⟨b', hb', hencode⟩ := hnumeral.decode_eq_ok
    cases h.symm.trans hb'
    exact ⟨hnumeral, hencode⟩
  · rintro ⟨hnumeral, hencode⟩
    obtain ⟨b', hb', hencode'⟩ := hnumeral.decode_eq_ok
    obtain rfl : b' = b := encode_injective (congrArg String.ofList (hencode'.trans hencode.symm))
    exact hb'

theorem length_encodeChars (b : Bytes) : (encodeChars b).length = 2 * b.length := by
  induction b with
  | nil => rfl
  | cons x b ih =>
    change (digit (x / 16) :: digit (x % 16) :: encodeChars b).length = _
    simp only [List.length_cons, ih]
    omega

theorem length_of_decode (h : decode (String.ofList cs) = .ok b) : cs.length = 2 * b.length := by
  have hlength := congrArg List.length (decode_ofList_eq_ok.mp h).2
  rw [length_encodeChars, List.length_map] at hlength
  exact hlength.symm

end Hex

/-! ## Decimal digits -/

namespace Decimal

variable {cs : List Char} {n : Nat}

structure IsNumeral (cs : List Char) : Prop where
  ne_nil : cs ≠ []
  digits : ∀ c ∈ cs, c.isDigit = true

def valueOf (cs : List Char) : Nat := Nat.ofDigitChars 10 cs 0

theorem digit?_eq_none {c : Char} (h : c.isDigit = false) : digit? c = none := by
  rw [digit?, if_neg]
  rintro ⟨hlow, hhigh⟩
  rw [Char.isDigit, Bool.and_eq_false_iff] at h
  rcases h with h | h
  · exact absurd hlow (decide_eq_false_iff_not.mp h)
  · exact absurd hhigh (decide_eq_false_iff_not.mp h)

theorem read?_eq_some_iff : read? cs = some n ↔ IsNumeral cs ∧ n = valueOf cs := by
  have hread : cs ≠ [] → read? cs = readFrom? 0 cs := by
    intro hne
    unfold read?
    split
    · exact absurd rfl hne
    · rfl
  constructor
  · intro h
    have hne : cs ≠ [] := by
      rintro rfl
      cases h
    rw [hread hne] at h
    have hdigits : ∀ c ∈ cs, c.isDigit = true := by
      intro c hc
      by_contra hnot
      rw [readFrom?_eq_none hc (digit?_eq_none (Bool.eq_false_iff.mpr hnot))] at h
      cases h
    rw [readFrom?_eq hdigits] at h
    exact ⟨⟨hne, hdigits⟩, (Option.some.inj h).symm⟩
  · rintro ⟨h, rfl⟩
    rw [hread h.ne_nil, readFrom?_eq h.digits, valueOf]

def withoutZeros (cs : List Char) : List Char := cs.dropWhile (· == '0')

theorem valueOf_concat (cs : List Char) (c : Char) :
    valueOf (cs ++ [c]) = 10 * valueOf cs + (c.toNat - 48) := by
  rw [valueOf, Nat.ofDigitChars_append, Nat.ofDigitChars_cons, Nat.ofDigitChars_nil]
  rfl

theorem digitChar_value {c : Char} (h : c.isDigit = true) :
    c.toNat - 48 < 10 ∧ Nat.digitChar (c.toNat - 48) = c := by
  have hall : ∀ k < 10, Nat.digitChar k = Char.ofNat (48 + k) := by decide
  simp only [Char.isDigit, Bool.and_eq_true, decide_eq_true_eq] at h
  have hlow : 48 ≤ c.toNat := h.1
  have hhigh : c.toNat ≤ 57 := h.2
  have hlt : c.toNat - 48 < 10 := by omega
  rw [hall _ hlt, Nat.add_sub_cancel' hlow, Char.ofNat_toNat]
  exact ⟨hlt, rfl⟩

/-- The digits of what a text spells are that text without the zeros that it begins with, if there is another
digit. -/
theorem digits_valueOf (h : ∀ c ∈ cs, c.isDigit = true) :
    (valueOf cs = 0 → withoutZeros cs = []) ∧ (valueOf cs ≠ 0 → digits (valueOf cs) = withoutZeros cs) := by
  -- from the right, as digits are written: the last one is the remainder, the others are the quotient
  induction cs using List.reverseRecOn with
  | nil => exact ⟨fun _ => rfl, fun hne => absurd rfl hne⟩
  | append_singleton cs c ih =>
    obtain ⟨hzero, hdigits⟩ := ih fun d hd => h d (List.mem_append_left _ hd)
    obtain ⟨hlt, hchar⟩ := digitChar_value (h c (List.mem_append_right _ (List.mem_singleton.mpr rfl)))
    have hdrop : withoutZeros (cs ++ [c]) =
        if (withoutZeros cs).isEmpty then withoutZeros [c] else withoutZeros cs ++ [c] :=
      List.dropWhile_append
    by_cases hcs : valueOf cs = 0
    · rw [valueOf_concat, hcs, hdrop, hzero hcs, List.isEmpty_nil, if_pos rfl, Nat.mul_zero, Nat.zero_add]
      refine ⟨fun hc => ?_, fun hc => ?_⟩
      · rw [hc] at hchar
        rw [← hchar]
        rfl
      · rw [digits, Nat.toDigits_of_lt_base hlt, hchar, withoutZeros, List.dropWhile_cons_of_neg]
        rintro hz
        rw [beq_iff_eq.mp hz] at hc
        exact hc rfl
    · have hne : withoutZeros cs ≠ [] := hdigits hcs ▸ digits_ne_nil _
      rw [valueOf_concat, hdrop, if_neg fun h => hne (List.isEmpty_iff.mp h)]
      refine ⟨fun hc => absurd hc (by omega), fun _ => ?_⟩
      have hquotient : (10 * valueOf cs + (c.toNat - 48)) / 10 = valueOf cs := by omega
      have hremainder : (10 * valueOf cs + (c.toNat - 48)) % 10 = c.toNat - 48 := by omega
      rw [digits, Nat.toDigits_of_base_le (by decide) (by omega), hquotient, hremainder, hchar, ← hdigits hcs,
        digits]

end Decimal

end KeyCustody
