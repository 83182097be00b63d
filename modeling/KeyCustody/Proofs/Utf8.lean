import KeyCustody.Text.Utf8
import Mathlib.Tactic.Common
/-! # UTF-8 there and back

The bytes of a text spell that text and no other, and bytes that spell a text are its bytes. A character
takes one of four forms by its number, and each form is read back in the branch of its leading byte. -/

namespace KeyCustody.Text

variable {a b x y : UInt8} {c : Char} {rest : Bytes} {cs : List Char}

theorem continuation?_ofNat {n : Nat} (h : n < 64) :
    continuation? (UInt8.ofNat (n + 0x80)) = some n := by
  have hn : (UInt8.ofNat (n + 0x80)).toNat = n + 0x80 := by
    rw [UInt8.toNat_ofNat', Nat.mod_eq_of_lt (by omega)]
  unfold continuation?
  rw [if_pos, hn, Nat.add_sub_cancel]
  constructor
  · rw [UInt8.le_iff_toNat_le, hn]
    exact Nat.le_add_left _ _
  · rw [UInt8.lt_iff_toNat_lt, hn]
    change n + 128 < 192
    omega

theorem scalar?_toNat {least : Nat} (h : least ≤ c.toNat) : scalar? least c.toNat = some c := by
  unfold scalar?
  rw [if_pos ⟨h, c.valid⟩, Char.ofNat_toNat]

private theorem decodeChars_one (h : a.toNat < 0x80) :
    decodeChars (a :: rest) = (decodeChars rest).map (Char.ofNat a.toNat :: ·) := by
  have ha : a < 0x80 := UInt8.lt_iff_toNat_lt.mpr h
  simp only [decodeChars.eq_def (a :: rest), if_pos ha]
  cases decodeChars rest <;> rfl

private theorem decodeChars_two {n : Nat} (h : 0xC0 ≤ a.toNat ∧ a.toNat < 0xE0)
    (hb : continuation? b = some n) (hc : scalar? 0x80 ((a.toNat - 0xC0) * 64 + n) = some c) :
    decodeChars (a :: b :: rest) = (decodeChars rest).map (c :: ·) := by
  have ha : ¬ a < 0x80 := by
    rw [UInt8.lt_iff_toNat_lt]
    change ¬ a.toNat < 128
    omega
  have hlead : 0xC0 ≤ a ∧ a < 0xE0 := by
    rw [UInt8.le_iff_toNat_le, UInt8.lt_iff_toNat_lt]
    exact h
  simp only [decodeChars, if_neg ha, hb, Option.bind_eq_bind, Option.bind_some, if_pos hlead, hc]
  cases decodeChars rest <;> rfl

private theorem decodeChars_three {n m : Nat} (h : 0xE0 ≤ a.toNat ∧ a.toNat < 0xF0)
    (hb : continuation? b = some n) (hx : continuation? x = some m)
    (hc : scalar? 0x800 (((a.toNat - 0xE0) * 64 + n) * 64 + m) = some c) :
    decodeChars (a :: b :: x :: rest) = (decodeChars rest).map (c :: ·) := by
  have ha : ¬ a < 0x80 := by
    rw [UInt8.lt_iff_toNat_lt]
    change ¬ a.toNat < 128
    omega
  have htwo : ¬ (0xC0 ≤ a ∧ a < 0xE0) := by
    rw [UInt8.le_iff_toNat_le, UInt8.lt_iff_toNat_lt]
    change ¬ (192 ≤ a.toNat ∧ a.toNat < 224)
    omega
  have hlead : 0xE0 ≤ a ∧ a < 0xF0 := by
    rw [UInt8.le_iff_toNat_le, UInt8.lt_iff_toNat_lt]
    exact h
  simp only [decodeChars, if_neg ha, hb, Option.bind_eq_bind, Option.bind_some, if_neg htwo, hx,
    if_pos hlead, hc]
  cases decodeChars rest <;> rfl

private theorem decodeChars_four {n m k : Nat} (h : 0xF0 ≤ a.toNat ∧ a.toNat < 0xF8)
    (hb : continuation? b = some n) (hx : continuation? x = some m) (hy : continuation? y = some k)
    (hc : scalar? 0x10000 ((((a.toNat - 0xF0) * 64 + n) * 64 + m) * 64 + k) = some c) :
    decodeChars (a :: b :: x :: y :: rest) = (decodeChars rest).map (c :: ·) := by
  have ha : ¬ a < 0x80 := by
    rw [UInt8.lt_iff_toNat_lt]
    change ¬ a.toNat < 128
    omega
  have htwo : ¬ (0xC0 ≤ a ∧ a < 0xE0) := by
    rw [UInt8.le_iff_toNat_le, UInt8.lt_iff_toNat_lt]
    change ¬ (192 ≤ a.toNat ∧ a.toNat < 224)
    omega
  have hthree : ¬ (0xE0 ≤ a ∧ a < 0xF0) := by
    rw [UInt8.le_iff_toNat_le, UInt8.lt_iff_toNat_lt]
    change ¬ (224 ≤ a.toNat ∧ a.toNat < 240)
    omega
  have hlead : 0xF0 ≤ a ∧ a < 0xF8 := by
    rw [UInt8.le_iff_toNat_le, UInt8.lt_iff_toNat_lt]
    exact h
  simp only [decodeChars, if_neg ha, hb, Option.bind_eq_bind, Option.bind_some, if_neg htwo, hx,
    if_neg hthree, hy, if_pos hlead, hc]
  cases decodeChars rest <;> rfl

private theorem toNat_ofNat_of_lt {n : Nat} (h : n < 256) : (UInt8.ofNat n).toNat = n := by
  rw [UInt8.toNat_ofNat', Nat.mod_eq_of_lt h]

/-- The bytes of a character are read back as that character, whatever follows them. -/
theorem decodeChars_append (c : Char) (rest : Bytes) :
    decodeChars (String.utf8EncodeChar c ++ rest) = (decodeChars rest).map (c :: ·) := by
  have hv : c.toNat < 0x110000 := by
    rcases c.valid with h | h
    · exact Nat.lt_trans h (by decide)
    · exact h.2
  unfold String.utf8EncodeChar
  simp only [Char.toNat_val]
  split_ifs with h1 h2 h3
  · have hn := toNat_ofNat_of_lt (n := c.toNat) (by omega)
    have hone : decodeChars (UInt8.ofNat c.toNat :: rest) = _ := decodeChars_one (by omega)
    rw [hn, Char.ofNat_toNat] at hone
    exact hone
  · refine decodeChars_two (n := c.toNat % 64) ?_ (continuation?_ofNat (by omega)) ?_
    · rw [toNat_ofNat_of_lt (by omega)]
      omega
    · rw [toNat_ofNat_of_lt (by omega)]
      have : (c.toNat / 64 % 32 + 192 - 192) * 64 + c.toNat % 64 = c.toNat := by omega
      rw [this]
      exact scalar?_toNat (by omega)
  · refine decodeChars_three (n := c.toNat / 64 % 64) (m := c.toNat % 64) ?_
      (continuation?_ofNat (by omega)) (continuation?_ofNat (by omega)) ?_
    · rw [toNat_ofNat_of_lt (by omega)]
      omega
    · rw [toNat_ofNat_of_lt (by omega)]
      have : ((c.toNat / 4096 % 16 + 224 - 224) * 64 + c.toNat / 64 % 64) * 64 + c.toNat % 64 =
          c.toNat := by omega
      rw [this]
      exact scalar?_toNat (by omega)
  · refine decodeChars_four (n := c.toNat / 4096 % 64) (m := c.toNat / 64 % 64)
      (k := c.toNat % 64) ?_ (continuation?_ofNat (by omega)) (continuation?_ofNat (by omega))
      (continuation?_ofNat (by omega)) ?_
    · rw [toNat_ofNat_of_lt (by omega)]
      omega
    · rw [toNat_ofNat_of_lt (by omega)]
      have : (((c.toNat / 262144 % 8 + 240 - 240) * 64 + c.toNat / 4096 % 64) * 64 +
          c.toNat / 64 % 64) * 64 + c.toNat % 64 = c.toNat := by omega
      rw [this]
      exact scalar?_toNat (by omega)

theorem decodeChars_flatMap (cs : List Char) :
    decodeChars (cs.flatMap String.utf8EncodeChar) = some cs := by
  induction cs with
  | nil => rfl
  | cons c cs ih => rw [List.flatMap_cons, decodeChars_append, ih, Option.map_some]

theorem ofUtf8?_utf8 (s : String) : ofUtf8? (utf8 s) = some s := by
  rw [ofUtf8?, utf8, decodeChars_flatMap, Option.map_some, String.ofList_toList]

/-! ## Bytes that spell a text -/

theorem continuation?_eq_some {n : Nat} (h : continuation? b = some n) : b.toNat = n + 0x80 ∧ n < 64 := by
  unfold continuation? at h
  split_ifs at h with hb
  rw [UInt8.le_iff_toNat_le, UInt8.lt_iff_toNat_lt] at hb
  change 128 ≤ b.toNat ∧ b.toNat < 192 at hb
  have hn : b.toNat - 128 = n := Option.some.inj h
  omega

theorem scalar?_eq_some {least n : Nat} (h : scalar? least n = some c) : least ≤ c.toNat ∧ c.toNat = n := by
  unfold scalar? at h
  split_ifs at h with hn
  cases h
  have hc : (Char.ofNat n).toNat = n := by
    rw [Char.ofNat, dif_pos hn.2]
    rfl
  rw [hc]
  exact ⟨hn.1, rfl⟩

/-! The bytes of a character by the range of its number. -/

theorem utf8EncodeChar_one (ha : a.toNat < 0x80) : String.utf8EncodeChar (Char.ofNat a.toNat) = [a] := by
  have hc : (Char.ofNat a.toNat).toNat = a.toNat := by
    rw [Char.ofNat, dif_pos (show a.toNat.isValidChar from .inl (by omega))]
    rfl
  unfold String.utf8EncodeChar
  simp only [Char.toNat_val, hc]
  rw [if_pos (by omega), UInt8.ofNat_toNat]

theorem utf8EncodeChar_two (h : 0x80 ≤ c.toNat) (h' : c.toNat < 0x800)
    (ha : a.toNat = c.toNat / 64 + 192) (hb : b.toNat = c.toNat % 64 + 128) :
    String.utf8EncodeChar c = [a, b] := by
  unfold String.utf8EncodeChar
  simp only [Char.toNat_val]
  rw [if_neg (by omega), if_pos (by omega), ← UInt8.ofNat_toNat (x := a), ← UInt8.ofNat_toNat (x := b), ha, hb,
    Nat.mod_eq_of_lt (show c.toNat / 64 < 32 by omega)]

theorem utf8EncodeChar_three (h : 0x800 ≤ c.toNat) (h' : c.toNat < 0x10000)
    (ha : a.toNat = c.toNat / 4096 + 224) (hb : b.toNat = c.toNat / 64 % 64 + 128)
    (hx : x.toNat = c.toNat % 64 + 128) : String.utf8EncodeChar c = [a, b, x] := by
  unfold String.utf8EncodeChar
  simp only [Char.toNat_val]
  rw [if_neg (by omega), if_neg (by omega), if_pos (by omega), ← UInt8.ofNat_toNat (x := a),
    ← UInt8.ofNat_toNat (x := b), ← UInt8.ofNat_toNat (x := x), ha, hb, hx,
    Nat.mod_eq_of_lt (show c.toNat / 4096 < 16 by omega)]

theorem utf8EncodeChar_four (h : 0x10000 ≤ c.toNat)
    (ha : a.toNat = c.toNat / 262144 + 240) (hb : b.toNat = c.toNat / 4096 % 64 + 128)
    (hx : x.toNat = c.toNat / 64 % 64 + 128) (hy : y.toNat = c.toNat % 64 + 128) :
    String.utf8EncodeChar c = [a, b, x, y] := by
  have hv : c.toNat < 0x110000 := by
    rcases c.valid with h | h
    · exact Nat.lt_trans h (by decide)
    · exact h.2
  unfold String.utf8EncodeChar
  simp only [Char.toNat_val]
  rw [if_neg (by omega), if_neg (by omega), if_neg (by omega), ← UInt8.ofNat_toNat (x := a),
    ← UInt8.ofNat_toNat (x := b), ← UInt8.ofNat_toNat (x := x), ← UInt8.ofNat_toNat (x := y), ha, hb, hx, hy,
    Nat.mod_eq_of_lt (show c.toNat / 262144 < 8 by omega)]

/-- The last step of a character of several bytes, which are those of any character with its number. -/
theorem exists_of_scalar? {least n : Nat} (bytes : Bytes) (h : (do
      let c ← scalar? least n
      let tail ← decodeChars rest
      return c :: tail) = some cs)
    (hbytes : ∀ c : Char, least ≤ c.toNat → c.toNat = n → String.utf8EncodeChar c = bytes) :
    ∃ c tail more, cs = c :: tail ∧ bytes ++ rest = String.utf8EncodeChar c ++ more ∧
      decodeChars more = some tail := by
  obtain ⟨c, hc, h⟩ := Option.bind_eq_some_iff.mp h
  obtain ⟨tail, htail, h⟩ := Option.bind_eq_some_iff.mp h
  cases h
  obtain ⟨hleast, hn⟩ := scalar?_eq_some hc
  exact ⟨c, tail, rest, rfl, by rw [hbytes c hleast hn], htail⟩

theorem exists_of_decodeChars (h : decodeChars (a :: rest) = some cs) :
    ∃ c tail more, cs = c :: tail ∧ a :: rest = String.utf8EncodeChar c ++ more ∧ decodeChars more = some tail := by
  have hbound : ∀ n : UInt8, (n ≤ a ↔ n.toNat ≤ a.toNat) ∧ (a < n ↔ a.toNat < n.toNat) :=
    fun n => ⟨UInt8.le_iff_toNat_le, UInt8.lt_iff_toNat_lt⟩
  rw [decodeChars.eq_def] at h
  simp only [(hbound _).1, (hbound _).2, UInt8.reduceToNat] at h
  -- as many bytes are taken off as the leading one asks for
  by_cases hone : a.toNat < 128
  · rw [if_pos hone] at h
    obtain ⟨tail, htail, h⟩ := Option.bind_eq_some_iff.mp h
    cases h
    exact ⟨_, tail, rest, rfl, by rw [utf8EncodeChar_one hone]; rfl, htail⟩
  rw [if_neg hone] at h
  cases rest with
  | nil => cases h
  | cons b rest =>
    obtain ⟨n, hn, h⟩ := Option.bind_eq_some_iff.mp h
    obtain ⟨hb, hn⟩ := continuation?_eq_some hn
    by_cases htwo : 192 ≤ a.toNat ∧ a.toNat < 224
    · rw [if_pos htwo] at h
      exact exists_of_scalar? [a, b] h fun c hleast hc =>
        utf8EncodeChar_two hleast (by omega) (by omega) (by omega)
    rw [if_neg htwo] at h
    cases rest with
    | nil => cases h
    | cons x rest =>
      obtain ⟨m, hm, h⟩ := Option.bind_eq_some_iff.mp h
      obtain ⟨hx, hm⟩ := continuation?_eq_some hm
      by_cases hthree : 224 ≤ a.toNat ∧ a.toNat < 240
      · rw [if_pos hthree] at h
        exact exists_of_scalar? [a, b, x] h fun c hleast hc =>
          utf8EncodeChar_three hleast (by omega) (by omega) (by omega) (by omega)
      rw [if_neg hthree] at h
      cases rest with
      | nil => cases h
      | cons y rest =>
        obtain ⟨k, hk, h⟩ := Option.bind_eq_some_iff.mp h
        obtain ⟨hy, hk⟩ := continuation?_eq_some hk
        split_ifs at h with hfour
        exact exists_of_scalar? [a, b, x, y] h fun c hleast hc =>
          utf8EncodeChar_four hleast (by omega) (by omega) (by omega) (by omega)

theorem flatMap_of_decodeChars {b : Bytes} (h : decodeChars b = some cs) :
    cs.flatMap String.utf8EncodeChar = b := by
  induction cs generalizing b with
  | nil =>
    cases b with
    | nil => rfl
    | cons a rest =>
      obtain ⟨c, tail, more, hcs, -⟩ := exists_of_decodeChars h
      cases hcs
  | cons c cs ih =>
    cases b with
    | nil =>
      rw [decodeChars] at h
      cases h
    | cons a rest =>
      obtain ⟨c', tail, more, hcs, hbytes, hmore⟩ := exists_of_decodeChars h
      cases hcs
      rw [List.flatMap_cons, ih hmore, hbytes]

theorem utf8_of_ofUtf8? {b : Bytes} {s : String} (h : ofUtf8? b = some s) : utf8 s = b := by
  obtain ⟨cs, hcs, rfl⟩ := Option.map_eq_some_iff.mp h
  rw [utf8, String.toList_ofList, flatMap_of_decodeChars hcs]

end KeyCustody.Text
