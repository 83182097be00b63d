import KeyCustody.Json.Record
import KeyCustody.Proofs.Numerals
import KeyCustody.Proofs.Utf8
/-! # JSON strings there and back

A text between quotes is read as that text, whatever follows the closing quote. Each character either
stands for itself, and then none of its bytes means anything inside quotes, or for an escape that is read
as the bytes of the character. -/

namespace KeyCustody

def Text.bytes (cs : List Char) : Bytes := cs.flatMap String.utf8EncodeChar

namespace Text

@[simp] theorem bytes_nil : bytes [] = [] := rfl

@[simp] theorem bytes_cons (c : Char) (cs : List Char) :
    bytes (c :: cs) = String.utf8EncodeChar c ++ bytes cs := rfl

@[simp] theorem bytes_append (cs ds : List Char) : bytes (cs ++ ds) = bytes cs ++ bytes ds :=
  List.flatMap_append

theorem utf8_eq_bytes (s : String) : utf8 s = bytes s.toList := rfl

theorem le_of_mem_utf8EncodeChar {c : Char} (hc : ¬ c.toNat < 128) {b : UInt8}
    (hb : b ∈ String.utf8EncodeChar c) : 128 ≤ b.toNat := by
  have hlead : ∀ m k, m < 64 → 128 ≤ k → k + m < 256 → 128 ≤ (UInt8.ofNat (m + k)).toNat := by
    intro m k hm hk hmk
    rw [UInt8.toNat_ofNat']
    omega
  have hlarge : ¬ c.toNat ≤ 127 := by omega
  unfold String.utf8EncodeChar at hb
  simp only [Char.toNat_val, if_neg hlarge] at hb
  split_ifs at hb <;> simp only [List.mem_cons, List.not_mem_nil, or_false] at hb
  · rcases hb with rfl | rfl
    · exact hlead _ 192 (by omega) (by omega) (by omega)
    · exact hlead _ 128 (by omega) (by omega) (by omega)
  · rcases hb with rfl | rfl | rfl
    · exact hlead _ 224 (by omega) (by omega) (by omega)
    · exact hlead _ 128 (by omega) (by omega) (by omega)
    · exact hlead _ 128 (by omega) (by omega) (by omega)
  · rcases hb with rfl | rfl | rfl | rfl
    · exact hlead _ 240 (by omega) (by omega) (by omega)
    · exact hlead _ 128 (by omega) (by omega) (by omega)
    · exact hlead _ 128 (by omega) (by omega) (by omega)
    · exact hlead _ 128 (by omega) (by omega) (by omega)

end Text

namespace Json

/-- A byte that stands for itself inside quotes. -/
def isPlain (b : UInt8) : Prop := b ≠ 0x22 ∧ b ≠ 0x5C ∧ ¬ b < 0x20

theorem isPlain_of_le {b : UInt8} (h : 128 ≤ b.toNat) : isPlain b := by
  refine ⟨?_, ?_, ?_⟩
  · rintro rfl
    exact absurd h (by decide)
  · rintro rfl
    exact absurd h (by decide)
  · rw [UInt8.lt_iff_toNat_lt]
    change ¬ b.toNat < 32
    omega

/-- The bytes of a character that is not escaped stand for themselves. -/
theorem isPlain_of_mem {c : Char} (hquote : c ≠ '"') (hslash : c ≠ '\\') (hcontrol : ¬ c.toNat < 0x20)
    {b : UInt8} (hb : b ∈ String.utf8EncodeChar c) : isPlain b := by
  by_cases hc : c.toNat < 128
  · rw [Text.utf8EncodeChar_of_lt hc, List.mem_singleton] at hb
    have hn : b.toNat = c.toNat := by
      rw [hb, UInt8.toNat_ofNat', Nat.mod_eq_of_lt (by omega)]
    refine ⟨?_, ?_, ?_⟩
    · rintro rfl
      exact hquote (Char.toNat_inj.mp hn.symm)
    · rintro rfl
      exact hslash (Char.toNat_inj.mp hn.symm)
    · rw [UInt8.lt_iff_toNat_lt, hn]
      exact hcontrol
  · exact isPlain_of_le (Text.le_of_mem_utf8EncodeChar hc hb)

theorem stringBytes_plain {bs tail rest rest' : Bytes} {fuel : Nat} (hplain : ∀ b ∈ bs, isPlain b)
    (h : stringBytes fuel rest = .ok (tail, rest')) :
    stringBytes (bs.length + fuel) (bs ++ rest) = .ok (bs ++ tail, rest') := by
  induction bs with
  | nil => simpa using h
  | cons b bs ih =>
    obtain ⟨hquote, hslash, hcontrol⟩ := hplain b List.mem_cons_self
    have hrest := ih fun x hx => hplain x (List.mem_cons_of_mem b hx)
    have hfuel : (b :: bs).length + fuel = (bs.length + fuel) + 1 := by
      rw [List.length_cons]
      omega
    rw [hfuel, List.cons_append, stringBytes, if_neg hquote, if_neg hslash, if_neg hcontrol, hrest]
    rfl

theorem stringBytes_escape {x tail rest rest' rest'' : Bytes} {fuel : Nat}
    (hescape : escape rest = .ok (x, rest')) (h : stringBytes fuel rest' = .ok (tail, rest'')) :
    stringBytes (fuel + 1) (0x5C :: rest) = .ok (x ++ tail, rest'') := by
  have hquote : ¬ (0x5C : UInt8) = 0x22 := by decide
  rw [stringBytes, if_neg hquote, if_pos rfl, hescape]
  simp only [bind, Except.bind, h]
  rfl

/-- The escape of a control character that has no letter. -/
theorem escape_control {c : Char} (hc : c.toNat < 0x20) :
    ∃ e, Text.bytes ['\\', 'u', '0', '0', Nat.digitChar (c.toNat / 16),
        Nat.digitChar (c.toNat % 16)] = 0x5C :: e ∧
      ∀ rest, escape (e ++ rest) = .ok (String.utf8EncodeChar c, rest) := by
  have hall : ∀ n < 0x20, (Nat.digitChar (n / 16)).toNat < 128 ∧ (Nat.digitChar (n % 16)).toNat < 128 ∧
      hexUnit? 0x30 0x30 (UInt8.ofNat (Nat.digitChar (n / 16)).toNat)
        (UInt8.ofNat (Nat.digitChar (n % 16)).toNat) = some n := by
    decide
  obtain ⟨hhigh, hlow, hunit⟩ := hall c.toNat hc
  refine ⟨[0x75, 0x30, 0x30, UInt8.ofNat (Nat.digitChar (c.toNat / 16)).toNat,
    UInt8.ofNat (Nat.digitChar (c.toNat % 16)).toNat], ?_, ?_⟩
  · simp only [Text.bytes_cons, Text.bytes_nil, Text.utf8EncodeChar_of_lt hhigh,
      Text.utf8EncodeChar_of_lt hlow]
    rfl
  · intro rest
    have hlone : ¬ (0xDC00 ≤ c.toNat ∧ c.toNat ≤ 0xDFFF) := by omega
    have hpair : ¬ (0xD800 ≤ c.toNat ∧ c.toNat ≤ 0xDBFF) := by omega
    simp only [List.cons_append, List.nil_append, escape, if_true, unitEscape, hexUnit, hunit, bind,
      Except.bind, if_neg hlone, if_neg hpair, pure, Except.pure, Char.ofNat_toNat]

/-- A character inside quotes stands for itself or is escaped. -/
theorem escapedChar_cases (c : Char) :
    (escapedChar c = [c] ∧ ∀ b ∈ String.utf8EncodeChar c, isPlain b) ∨
      ∃ e, Text.bytes (escapedChar c) = 0x5C :: e ∧
        ∀ rest, escape (e ++ rest) = .ok (String.utf8EncodeChar c, rest) := by
  unfold escapedChar
  split_ifs with h1 h2 h3 h4 h5 h6 h7 h8
  · exact .inr ⟨[0x22], rfl, fun _ => by subst h1; rfl⟩
  · exact .inr ⟨[0x5C], rfl, fun _ => by subst h2; rfl⟩
  · exact .inr ⟨[0x62], rfl, fun _ => by subst h3; rfl⟩
  · exact .inr ⟨[0x66], rfl, fun _ => by subst h4; rfl⟩
  · exact .inr ⟨[0x6E], rfl, fun _ => by subst h5; rfl⟩
  · exact .inr ⟨[0x72], rfl, fun _ => by subst h6; rfl⟩
  · exact .inr ⟨[0x74], rfl, fun _ => by subst h7; rfl⟩
  · exact .inr (escape_control h8)
  · exact .inl ⟨rfl, fun b hb => isPlain_of_mem h1 h2 h8 hb⟩

theorem stringBytes_escaped (cs : List Char) (rest : Bytes) {fuel : Nat}
    (hfuel : (Text.bytes (cs.flatMap escapedChar)).length < fuel) :
    stringBytes fuel (Text.bytes (cs.flatMap escapedChar) ++ 0x22 :: rest) =
      .ok (Text.bytes cs, rest) := by
  induction cs generalizing fuel with
  | nil =>
    obtain ⟨n, rfl⟩ : ∃ n, fuel = n + 1 := ⟨fuel - 1, by omega⟩
    rfl
  | cons c cs ih =>
    rw [List.flatMap_cons, Text.bytes_append, List.length_append] at hfuel
    rw [List.flatMap_cons, Text.bytes_append, List.append_assoc, Text.bytes_cons]
    rcases escapedChar_cases c with ⟨hself, hplain⟩ | ⟨e, hbytes, hescape⟩
    · have hone : Text.bytes (escapedChar c) = String.utf8EncodeChar c := by
        rw [hself]
        exact List.append_nil _
      rw [hone] at hfuel ⊢
      obtain ⟨n, rfl⟩ : ∃ n, fuel = (String.utf8EncodeChar c).length + n :=
        ⟨fuel - (String.utf8EncodeChar c).length, by omega⟩
      exact stringBytes_plain hplain (ih (by omega))
    · obtain ⟨n, rfl⟩ : ∃ n, fuel = n + 1 := ⟨fuel - 1, by omega⟩
      rw [hbytes, List.length_cons] at hfuel
      rw [hbytes, List.cons_append]
      exact stringBytes_escape (hescape _) (ih (by omega))

/-- The bytes of a text between quotes, without the first quote. -/
def quotedTail (s : String) : Bytes := Text.bytes (s.toList.flatMap escapedChar) ++ [0x22]

theorem bytes_quotedChars (s : String) : Text.bytes (quotedChars s) = 0x22 :: quotedTail s := by
  simp only [quotedChars, List.cons_append, Text.bytes_cons, Text.bytes_append, Text.bytes_nil]
  rfl

theorem stringBody_quotedTail (s : String) (rest : Bytes) :
    stringBody (quotedTail s ++ rest) = .ok (s, rest) := by
  have hread : stringBytes ((quotedTail s ++ rest).length + 1) (quotedTail s ++ rest) =
      .ok (Text.bytes s.toList, rest) := by
    rw [quotedTail, List.append_assoc]
    exact stringBytes_escaped _ _ (by simp only [List.length_append]; omega)
  have htext : Text.ofUtf8? (Text.bytes s.toList) = some s := Text.ofUtf8?_utf8 s
  simp only [stringBody, hread, bind, Except.bind, htext]
  rfl

end Json

end KeyCustody
