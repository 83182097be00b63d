import KeyCustody.Proofs.DocumentNames
/-! # The documents behind identifiers

An identifier is the digest of a document that holds the kind of a key, its public half and its scheme.
The document has one form only: its members are in order, and there are no blanks between them. It is read
back as what it was written for, so that different keys have different documents, and share an identifier
only if the digests of these collide. -/

namespace KeyCustody

open Json

/-! ## Outside of strings -/

namespace Json

/-- Where in a text a byte stands: outside of strings, in a string, or after a backslash in one. -/
inductive Place where
  | bare
  | quoted
  | escaped

/-- The bytes of a text that stand outside of strings and are no quotes. -/
def outside : Place → Bytes → Bytes
  | _, [] => []
  | .bare, b :: bs => if b = 0x22 then outside .quoted bs else b :: outside .bare bs
  | .quoted, b :: bs =>
    if b = 0x22 then outside .bare bs
    else if b = 0x5C then outside .escaped bs
    else outside .quoted bs
  | .escaped, _ :: bs => outside .quoted bs

variable {bs : Bytes}

theorem outside_plain (h : ∀ b ∈ bs, isPlain b) (rest : Bytes) :
    outside .quoted (bs ++ rest) = outside .quoted rest := by
  induction bs with
  | nil => rfl
  | cons b bs ih =>
    obtain ⟨hquote, hslash, -⟩ := h b List.mem_cons_self
    rw [List.cons_append, outside, if_neg hquote, if_neg hslash]
    exact ih fun x hx => h x (List.mem_cons_of_mem b hx)

/-- A character in a string stays in it. -/
theorem outside_escapedChar (c : Char) (rest : Bytes) :
    outside .quoted (Text.bytes (escapedChar c) ++ rest) = outside .quoted rest := by
  have hdigits : ∀ n < 0x20, ∀ b ∈ Text.bytes ['0', '0', Nat.digitChar (n / 16), Nat.digitChar (n % 16)],
      b ≠ 0x22 ∧ b ≠ 0x5C ∧ ¬ b < 0x20 := by
    decide +kernel
  unfold escapedChar
  split_ifs with h1 h2 h3 h4 h5 h6 h7 h8
  · rfl
  · rfl
  · rfl
  · rfl
  · rfl
  · rfl
  · rfl
  · exact outside_plain (hdigits _ h8) rest
  · refine outside_plain (fun b hb => ?_) rest
    rw [Text.bytes_cons, Text.bytes_nil, List.append_nil] at hb
    exact isPlain_of_mem h1 h2 h8 hb

theorem outside_quotedTail (s : String) (rest : Bytes) :
    outside .quoted (quotedTail s ++ rest) = outside .bare rest := by
  have hescaped : ∀ cs : List Char,
      outside .quoted (Text.bytes (cs.flatMap escapedChar) ++ 0x22 :: rest) = outside .bare rest := by
    intro cs
    induction cs with
    | nil => rfl
    | cons c cs ih =>
      rw [List.flatMap_cons, Text.bytes_append, List.append_assoc, outside_escapedChar, ih]
  rw [quotedTail, List.append_assoc]
  exact hescaped s.toList

theorem outside_string (s : String) (rest : Bytes) :
    outside .bare (Text.bytes (Value.string s).chars ++ rest) = outside .bare rest := by
  rw [bytes_string]
  exact outside_quotedTail s rest

theorem outside_memberBytes (key : String) (v : Value) (rest : Bytes) :
    outside .bare (memberBytes key v ++ rest) =
      0x3A :: outside .bare (Text.bytes v.chars ++ rest) := by
  have hcolon : ¬ (0x3A : UInt8) = 0x22 := by decide
  rw [memberBytes, List.cons_append, outside, if_pos rfl, List.append_assoc, outside_quotedTail,
    List.cons_append, outside, if_neg hcolon]

end Json

/-! ## The document -/

variable {keytype keytype' : KeyType} {scheme scheme' : Scheme} {half half' : String}

/-- The bytes of which an identifier is the digest. -/
def keyidBytes (keytype : KeyType) (scheme : Scheme) (half : String) : Bytes :=
  Text.utf8 (keyidDocument keytype scheme half).text

theorem keyidBytes_eq (keytype : KeyType) (scheme : Scheme) (half : String) :
    keyidBytes keytype scheme half = Text.bytes (keyidDocument keytype scheme half).chars := by
  rw [keyidBytes, Text.utf8_eq_bytes, Value.text, String.toList_ofList]

/-- A string, or an object whose members hold such values and are in the order of their keys. -/
inductive Json.Value.Sorted : Value → Prop where
  | string (s : String) : Sorted (.string s)
  | object {ms : List (String × Value)} :
      (ms.map Prod.fst).Pairwise (· < ·) → (∀ m ∈ ms, Sorted m.2) → Sorted (.object ms)

theorem sorted_keyidDocument (keytype : KeyType) (scheme : Scheme) (half : String) :
    (keyidDocument keytype scheme half).Sorted := by
  refine .object (show ["keytype", "keyval", "scheme"].Pairwise (· < ·) by decide) ?_
  simp only [List.forall_mem_cons]
  refine ⟨.string _, .object (List.pairwise_singleton _ _) ?_, .string _, by simp⟩
  simp only [List.forall_mem_cons]
  exact ⟨.string _, by simp⟩

theorem numberless_keyidDocument (keytype : KeyType) (scheme : Scheme) (half : String) :
    (keyidDocument keytype scheme half).Numberless 127 := by
  refine .object ?_
  simp only [List.forall_mem_cons]
  refine ⟨.string _ _, .object ?_, .string _ _, by simp⟩
  simp only [List.forall_mem_cons]
  exact ⟨.string _ _, by simp⟩

/-- Brackets, colons and commas are all that stands outside of the strings of the document. -/
theorem outside_keyidBytes (keytype : KeyType) (scheme : Scheme) (half : String) :
    outside .bare (keyidBytes keytype scheme half) = Text.utf8 "\x7b:,:\x7b:\x7d,:\x7d" := by
  have hpunctuation : ∀ b : UInt8, b ≠ 0x22 → ∀ bs, outside .bare (b :: bs) = b :: outside .bare bs :=
    fun b hb bs => if_neg hb
  have hend : Text.bytes (Value.membersChars []) = [] := rfl
  simp only [keyidBytes_eq, keyidDocument, bytes_object, bytes_tail_membersChars, bytes_membersChars, hend,
    List.cons_append, List.append_assoc, List.nil_append, outside_memberBytes, outside_string,
    hpunctuation 0x7B (by decide), hpunctuation 0x2C (by decide), hpunctuation 0x7D (by decide)]
  rfl

/-- The document of public key data is read as the metadata that holds the same. -/
theorem Metadata.parse_keyidBytes (keytype : KeyType) (scheme : Scheme) (half : String) :
    Metadata.parse (keyidBytes keytype scheme half) = .ok ⟨keytype, scheme, half⟩ := by
  have hread : Reads Metadata.layout.read (keyidDocument keytype scheme half) ⟨keytype, scheme, half⟩ :=
    Layout.reads_object (d := ⟨some keytype, some scheme, some half⟩)
      (.cons rfl rfl (reads_field keytype.reads_name _)
        (.cons rfl rfl (reads_field (KeyVal.reads_published half) _)
        (.cons rfl rfl (reads_field scheme.reads_name _) (.nil _)))) rfl
  rw [Metadata.parse, keyidBytes, whole_text hread]
  rfl

theorem keyidBytes_eq_iff :
    keyidBytes keytype scheme half = keyidBytes keytype' scheme' half' ↔
      keytype = keytype' ∧ scheme = scheme' ∧ half = half' := by
  constructor
  · intro h
    have hparse := Metadata.parse_keyidBytes keytype scheme half
    rw [h, Metadata.parse_keyidBytes] at hparse
    cases hparse
    exact ⟨rfl, rfl, rfl⟩
  · rintro ⟨rfl, rfl, rfl⟩
    rfl

/-- A text is the compact text of a value whose members are in order. -/
structure Json.IsCanonical (text : Bytes) (v : Value) : Prop where
  value : Value.parse text = .ok v
  sorted : v.Sorted
  compact : ∀ b ∈ outside .bare text, isBlank b = false

theorem isCanonical_keyidBytes (keytype : KeyType) (scheme : Scheme) (half : String) :
    IsCanonical (keyidBytes keytype scheme half) (keyidDocument keytype scheme half) where
  value := Value.parse_text (numberless_keyidDocument keytype scheme half)
  sorted := sorted_keyidDocument keytype scheme half
  compact := by
    rw [outside_keyidBytes]
    decide +kernel

/-- Keys with the same identifier agree, or their documents collide. -/
theorem computeKeyid_eq_computeKeyid (algorithm : HashAlgorithm) :
    computeKeyid keytype scheme half algorithm = computeKeyid keytype' scheme' half' algorithm ↔
      (keytype = keytype' ∧ scheme = scheme' ∧ half = half') ∨
        (keyidBytes keytype scheme half ≠ keyidBytes keytype' scheme' half' ∧
          algorithm.digest (keyidBytes keytype scheme half) =
            algorithm.digest (keyidBytes keytype' scheme' half')) := by
  have hdigest : computeKeyid keytype scheme half algorithm =
      computeKeyid keytype' scheme' half' algorithm ↔
        algorithm.digest (keyidBytes keytype scheme half) =
          algorithm.digest (keyidBytes keytype' scheme' half') := Hex.encode_injective.eq_iff
  rw [hdigest, ← keyidBytes_eq_iff]
  by_cases hsame : keyidBytes keytype scheme half = keyidBytes keytype' scheme' half'
  · simp only [hsame, ne_eq, not_true_eq_false, false_and, or_false]
  · simp only [hsame, ne_eq, not_false_eq_true, true_and, false_or]

/-- The document of which an identifier is the digest is the canonical text of the kind of the key, its
public half and its scheme, and nothing else. It is read back as these three, and it is the same for equal
ones only. So two keys have the same identifier only if they agree in all three or their documents collide
under the hash algorithm. -/
theorem keyid_canonical (keytype keytype' : KeyType) (scheme scheme' : Scheme) (half half' : String)
    (algorithm : HashAlgorithm) :
    (keyidBytes keytype scheme half = keyidBytes keytype' scheme' half' ↔
        keytype = keytype' ∧ scheme = scheme' ∧ half = half') ∧
      (computeKeyid keytype scheme half algorithm = computeKeyid keytype' scheme' half' algorithm ↔
        (keytype = keytype' ∧ scheme = scheme' ∧ half = half') ∨
          (keyidBytes keytype scheme half ≠ keyidBytes keytype' scheme' half' ∧
            algorithm.digest (keyidBytes keytype scheme half) =
              algorithm.digest (keyidBytes keytype' scheme' half'))) ∧
      IsCanonical (keyidBytes keytype scheme half) (.object [("keytype", .string keytype.name),
        ("keyval", .object [("public", .string half)]), ("scheme", .string scheme.name)]) ∧
      Metadata.parse (keyidBytes keytype scheme half) = .ok ⟨keytype, scheme, half⟩ :=
  ⟨keyidBytes_eq_iff, computeKeyid_eq_computeKeyid algorithm,
    isCanonical_keyidBytes keytype scheme half, Metadata.parse_keyidBytes keytype scheme half⟩

end KeyCustody
