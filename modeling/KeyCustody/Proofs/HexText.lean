import KeyCustody.Proofs.NumeralReaders
/-! # Hexadecimal text and its faults

A text is read as a byte string exactly if it is, in lower case, what is written for that byte string. Every
other text is refused: for its length if it has an odd number of bytes, whatever they are, and otherwise for
its leftmost byte that is no digit. -/

namespace KeyCustody.Hex

variable {b before after : Bytes} {byte x : UInt8} {c : Char} {text : String} {fault : Fault}

/-! ## What is written -/

/-- A digit as it is written. -/
def IsLowerDigit (c : Char) : Prop := c.isDigit = true ∨ ('a' ≤ c ∧ c ≤ 'f')

instance : DecidablePred IsLowerDigit := fun _ => inferInstanceAs (Decidable (_ ∨ _))

theorem isLowerDigit_of_mem (h : c ∈ encodeChars b) : IsLowerDigit c := by
  have hall : ∀ n < 16, IsLowerDigit (digit (UInt8.ofNat n)) := by decide
  obtain ⟨x, hx, rfl⟩ := exists_digit_of_mem h
  have hdigit := hall x.toNat (UInt8.lt_iff_toNat_lt.mp hx)
  rwa [UInt8.ofNat_toNat] at hdigit

/-! ## What is read -/

/-- The byte of a digit of either case. -/
def IsDigitByte (x : UInt8) : Prop := IsDigit (Char.ofNat x.toNat)

instance : DecidablePred IsDigitByte := fun _ => inferInstanceAs (Decidable (IsDigit _))

theorem isSome_digit?_iff : (digit? x).isSome = true ↔ IsDigitByte x := by
  constructor
  · intro h
    have hbytes := Text.utf8EncodeChar_one (toNat_lt_of_digit? h)
    refine isDigit_of_bytes fun y hy => ?_
    rw [hbytes, List.mem_singleton] at hy
    rwa [hy]
  · intro h
    obtain ⟨n, -, hn, -⟩ := IsDigit.value h
    have hvalid : (Char.ofNat x.toNat).toNat = x.toNat := by
      rw [Char.ofNat, dif_pos (.inl (Nat.lt_trans x.toNat_lt (by decide)))]
      rfl
    rw [hvalid, UInt8.ofNat_toNat] at hn
    rw [hn]
    rfl

theorem toList_toLower (text : String) : text.toLower.toList = text.toList.map Char.toLower :=
  String.toList_map

theorem decode_eq_ok : decode text = .ok b ↔ (Text.utf8 text).length % 2 = 0 ∧
    (∀ c ∈ text.toList, IsDigit c) ∧ encode b = text.toLower := by
  have hlower : encode b = text.toLower ↔ encodeChars b = text.toList.map Char.toLower := by
    rw [← String.toList_inj, encode, String.toList_ofList, toList_toLower]
  rw [← String.ofList_toList (s := text), decode_ofList_eq_ok, String.ofList_toList, hlower]
  constructor
  · rintro ⟨⟨heven, hdigits⟩, hencode⟩
    exact ⟨by rwa [Text.utf8, length_utf8_of_digits hdigits], hdigits, hencode⟩
  · rintro ⟨heven, hdigits, hencode⟩
    exact ⟨⟨by rwa [Text.utf8, length_utf8_of_digits hdigits] at heven, hdigits⟩, hencode⟩

theorem exists_decode : (∃ b, decode text = .ok b) ↔
    (Text.utf8 text).length % 2 = 0 ∧ ∀ c ∈ text.toList, IsDigit c := by
  constructor
  · rintro ⟨b, hb⟩
    obtain ⟨heven, hdigits, -⟩ := decode_eq_ok.mp hb
    exact ⟨heven, hdigits⟩
  · rintro ⟨heven, hdigits⟩
    rw [Text.utf8, length_utf8_of_digits hdigits] at heven
    obtain ⟨b, hb, -⟩ := IsNumeral.decode_eq_ok ⟨heven, hdigits⟩
    rw [String.ofList_toList] at hb
    exact ⟨b, hb⟩

/-- Pairs of digits are passed over, and the first byte that is none is named with its position. -/
theorem decodePairs_before (index : Nat) (hbyte : digit? byte = none) : {before : Bytes} →
    (∀ x ∈ before, (digit? x).isSome = true) → (before ++ byte :: after).length % 2 = 0 →
    decodePairs index (before ++ byte :: after) = .error (.badDigit byte (index + before.length))
  | [], _, heven => by
    cases after with
    | nil => cases heven
    | cons low after =>
      simp only [List.nil_append, decodePairs, nibble, hbyte]
      rfl
  | [high], h, _ => by
    obtain ⟨n, hn⟩ := Option.isSome_iff_exists.mp (h high List.mem_cons_self)
    simp only [List.cons_append, List.nil_append, decodePairs, nibble, hn, hbyte]
    rfl
  | high :: low :: before, h, heven => by
    obtain ⟨n, hn⟩ := Option.isSome_iff_exists.mp (h high List.mem_cons_self)
    obtain ⟨m, hm⟩ := Option.isSome_iff_exists.mp (h low (List.mem_cons_of_mem _ List.mem_cons_self))
    have heven' : (before ++ byte :: after).length % 2 = 0 := by
      simp only [List.cons_append, List.length_cons] at heven
      omega
    have hrest := decodePairs_before (index + 2) hbyte
      (fun x hx => h x (List.mem_cons_of_mem _ (List.mem_cons_of_mem _ hx))) heven'
    simp only [List.cons_append, decodePairs, nibble, hn, hm, hrest, List.length_cons]
    rw [Nat.add_assoc, Nat.add_comm 2]
    rfl

/-- What a text of some bytes is refused for: its length, or else the first byte that is no digit. -/
inductive IsFaultOf (bytes : Bytes) : Fault → Prop where
  | oddLength : bytes.length % 2 = 1 → IsFaultOf bytes .oddLength
  | badDigit {before after : Bytes} {byte : UInt8} : bytes.length % 2 = 0 →
      bytes = before ++ byte :: after → (∀ x ∈ before, IsDigitByte x) → ¬ IsDigitByte byte →
      IsFaultOf bytes (.badDigit byte before.length)

theorem decode_of_isFaultOf (h : IsFaultOf (Text.utf8 text) fault) : decode text = .error fault := by
  unfold decode decodeBytes
  cases h with
  | oddLength hodd => rw [if_pos hodd]
  | badDigit heven hbytes hbefore hbyte =>
    rw [if_neg (by omega), hbytes, decodePairs_before 0 _ _ (hbytes ▸ heven), Nat.zero_add]
    · rw [← Option.not_isSome_iff_eq_none, isSome_digit?_iff]
      exact hbyte
    · exact fun x hx => isSome_digit?_iff.mpr (hbefore x hx)

theorem decode_or_isFaultOf (text : String) :
    (∃ b, decode text = .ok b) ∨ ∃ fault, IsFaultOf (Text.utf8 text) fault := by
  by_cases hodd : (Text.utf8 text).length % 2 = 1
  · exact .inr ⟨_, .oddLength hodd⟩
  have heven := Nat.mod_two_ne_one.mp hodd
  cases hfind : (Text.utf8 text).find? fun x => !decide (IsDigitByte x) with
  | none =>
    have hdigits : ∀ x ∈ Text.utf8 text, IsDigitByte x := by
      simpa using List.find?_eq_none.mp hfind
    refine .inl (exists_decode.mpr ⟨heven, fun c hc => isDigit_of_bytes fun x hx => ?_⟩)
    exact isSome_digit?_iff.mpr (hdigits x (List.mem_flatMap.mpr ⟨c, hc, hx⟩))
  | some byte =>
    obtain ⟨hbyte, before, after, hbytes, hbefore⟩ := List.find?_eq_some_iff_append.mp hfind
    refine .inr ⟨_, .badDigit heven hbytes (fun x hx => ?_) (by simpa using hbyte)⟩
    simpa using hbefore x hx

theorem decode_eq_error : decode text = .error fault ↔ IsFaultOf (Text.utf8 text) fault := by
  refine ⟨fun h => ?_, decode_of_isFaultOf⟩
  obtain ⟨b, hb⟩ | ⟨fault', hfault⟩ := decode_or_isFaultOf text
  · cases h.symm.trans hb
  · cases h.symm.trans (decode_of_isFaultOf hfault)
    exact hfault

/-- What is written is read as what it was written for, in lower case digits, two for each byte. A text is
read exactly if it has an even number of bytes and consists of digits, and it is what is written for the
result but for the case of its letters. Otherwise it is refused for its length, or else for the first of its
bytes that is no digit. -/
theorem decode_exact (artifact : String) :
    (∀ b, (decode (encode b)).mapError (Failure.hexText artifact) = .ok b ∧
      (∀ c ∈ (encode b).toList, IsLowerDigit c) ∧ (encode b).length = 2 * b.length) ∧
      ∀ text,
        ((∃ b, (decode text).mapError (Failure.hexText artifact) = .ok b) ↔
          (Text.utf8 text).length % 2 = 0 ∧ ∀ c ∈ text.toList, IsDigit c) ∧
        (∀ b, (decode text).mapError (Failure.hexText artifact) = .ok b → encode b = text.toLower) ∧
        ∀ e, (decode text).mapError (Failure.hexText artifact) = .error e ↔
          ∃ fault, IsFaultOf (Text.utf8 text) fault ∧ e = .hexText artifact fault := by
  refine ⟨fun b => ⟨?_, fun c hc => ?_, ?_⟩, fun text => ⟨?_, fun b h => ?_, fun e => ?_⟩⟩
  · rw [decode_encode]
    rfl
  · rw [encode, String.toList_ofList] at hc
    exact isLowerDigit_of_mem hc
  · rw [encode, String.length_ofList, length_encodeChars]
  · simp only [Json.mapError_eq_ok, exists_decode]
  · exact (decode_eq_ok.mp (Json.mapError_eq_ok.mp h)).2.2
  · simp only [Json.mapError_eq_error, decode_eq_error]

theorem decode_exact_accented :
    (decode "0aFé9").mapError (Failure.hexText "key") =
        .error (.hexText "key" (.badDigit 0xC3 3)) ∧
      (decode "0aFé").mapError (Failure.hexText "key") = .error (.hexText "key" .oddLength) ∧
      ∃ b, (decode "0aFe").mapError (Failure.hexText "key") = .ok b ∧ encode b = "0afe" := by
  obtain ⟨-, htext⟩ := decode_exact "key"
  -- tested along the list, not over all bytes or characters
  have hbefore : ∀ x ∈ [0x30, 0x61, 0x46], IsDigitByte x := List.forall_iff_forall_mem.mp (by decide)
  have hdigits : ∀ c ∈ "0aFe".toList, IsDigit c := List.forall_iff_forall_mem.mp (by decide)
  have haccent : IsFaultOf (Text.utf8 "0aFé9") (.badDigit 0xC3 3) :=
    @IsFaultOf.badDigit _ [0x30, 0x61, 0x46] [0xA9, 0x39] 0xC3 (by decide) (by decide) hbefore
      (by decide)
  have hodd : IsFaultOf (Text.utf8 "0aFé") .oddLength := .oddLength (by decide)
  have hlower : "0aFe".toLower = "0afe" := by
    rw [← String.toList_inj, toList_toLower]
    decide
  obtain ⟨b, hb⟩ := (htext "0aFe").1.mpr ⟨by decide, hdigits⟩
  exact ⟨((htext _).2.2 _).mpr ⟨_, haccent, rfl⟩, ((htext _).2.2 _).mpr ⟨_, hodd, rfl⟩, b, hb,
    ((htext _).2.1 b hb).trans hlower⟩

end KeyCustody.Hex
