import KeyCustody.Ecdsa.Document
import KeyCustody.Proofs.RsaDocument
/-! # ECDSA keys there and back

Both documents of an ECDSA key are of a bounded size, so they are always written and never too long. The
private one is read as that key, with the point that is written beside the number; the public one is read as
what its point is decoded to. -/

namespace KeyCustody

open Der

theorem Curve.P256.Affine.length_encode (a : Affine) : a.encode.length = 65 := by
  simp only [encode, List.cons_append, List.length_cons, List.length_append, Bytes.length_ofNat]

theorem Curve.P256.Affine.decode?_encode_base : decode? base.encode = some base := by decide +kernel

namespace Ecdsa

open Curve

variable {text label : String} {contents : Bytes} {members : List Element}

theorem algorithm?_algorithm : algorithm.element.algorithm? = some algorithm := by decide

theorem isP256_algorithm : isP256 algorithm = true := by decide

theorem length_algorithm : algorithm.element.encode.length = 21 := by decide

/-- The contents of a text are those of its block, which a key of another algorithm is read from as well. -/
theorem contents?_eq_some :
    contents? label text = some contents ↔
      ∃ block, Rsa.block? (Text.trim text.toList) = some block ∧ block.label = label ∧
        block.contents = contents := by
  simp only [contents?, Rsa.block?, Option.bind_eq_bind, Option.bind_eq_some_iff]
  constructor
  · rintro ⟨block, hblock, e, he, h⟩
    split_ifs at h with hmatch
    exact ⟨block, ⟨block, hblock, e, he, if_pos hmatch.2⟩, hmatch.1, Option.some.inj h⟩
  · rintro ⟨block, ⟨block', hblock, e, he, h⟩, hlabel, hcontents⟩
    split_ifs at h with htag
    obtain rfl := Option.some.inj h
    exact ⟨block', hblock, e, he, by rw [if_pos ⟨hlabel, htag⟩, ← hcontents]; rfl⟩

theorem contents?_encode (hlabel : Pem.IsLabel label.toList)
    (hlength : (sequence members).encode.length ≤ maxLength) :
    contents? label (Pem.Block.mk label (sequence members).encode).encode =
      some (sequence members).encode := by
  refine contents?_eq_some.mpr ⟨⟨label, (sequence members).encode⟩, ?_, rfl, rfl⟩
  rw [Pem.Block.encode, String.toList_ofList, Pem.trim_encodeChars]
  exact Rsa.block?_framed hlabel hlength

/-! ## Public keys -/

namespace PublicKey

theorem encode_info (k : PublicKey) :
    k.info.encode = (sequence [algorithm.element, bitString k.encode]).encode := rfl

theorem length_info_le (k : PublicKey) : k.info.encode.length ≤ maxLength := by
  have hpoint := k.length_encode
  have hbits := (bitString k.encode).length_encode_le
  have hlength := length_sequence_le algorithm.element (bitString k.encode)
  have hmax := maxLength_eq
  simp only [bitString, List.length_cons] at hbits hlength
  rw [length_algorithm] at hlength
  rw [encode_info]
  simp only [bitString]
  omega

/-- The document of a public key is read as what its point is decoded to. -/
theorem parse_document_eq (k : PublicKey) :
    parse k.document = Outcome.ofOption .ecdsaMalformed (P256.Affine.decode? k.encode) := by
  have hcontents : contents? "PUBLIC KEY" k.document = some k.info.encode :=
    contents?_encode Rsa.isLabel_publicLabel k.length_info_le
  have hinfo : PublicInfo.decode? k.info.encode = some k.info :=
    PublicInfo.decode?_encode algorithm?_algorithm rfl k.length_info_le
  have hkey : ofInfo? k.info = P256.Affine.decode? k.encode := if_pos ⟨isP256_algorithm, rfl⟩
  rw [parse, hcontents, Option.bind_eq_bind, Option.bind_some, hinfo, Option.bind_eq_bind,
    Option.bind_some, hkey]

end PublicKey

/-! ## Private keys -/

namespace PrivateKey

variable {k : PrivateKey} {point : PublicKey}

/-- The member of a private key that holds a point. -/
def held (point : PublicKey) : Element := ⟨publicKeyTag, (bitString point.encode).encode⟩

def membersWith (k : PrivateKey) (point : PublicKey) : List Element :=
  [natural 1, octetString (Bytes.ofNat 32 k.scalar), held point]

theorem publicKey?_one : publicKey? ⟨1⟩ = some P256.base := by decide +kernel

theorem element?_eq (hpoint : k.publicKey? = some point) :
    k.element? = some (sequence (k.membersWith point)) := by
  rw [element?, hpoint]
  rfl

theorem length_sequence_membersWith (k : PrivateKey) (point : PublicKey) :
    (sequence (k.membersWith point)).encode.length ≤ 160 := by
  have hversion : (natural 1).encode.length = 3 := by decide
  have hscalar : (octetString (Bytes.ofNat 32 k.scalar)).encode.length ≤ 32 + 6 := by
    have h := length_octetString_le (b := Bytes.ofNat 32 k.scalar) (by rw [Bytes.length_ofNat]; decide)
    rwa [Bytes.length_ofNat] at h
  have hpoint : (held point).encode.length ≤ 78 := by
    have hvalue : (bitString point.encode).value.length = 66 := congrArg (· + 1) point.length_encode
    have hbits := (bitString point.encode).length_encode_le_add (by omega)
    have htagged := (held point).length_encode_le_add (by simp only [held]; omega)
    simp only [held] at htagged ⊢
    omega
  have hmembers : ((k.membersWith point).flatMap Element.encode).length ≤ 154 := by
    simp only [membersWith, List.flatMap_cons, List.flatMap_nil, List.append_nil, List.length_append]
    omega
  exact length_sequence_le_add hmembers (by decide)

theorem info?_eq (hpoint : k.publicKey? = some point) :
    k.info? = some ⟨algorithm, (sequence (k.membersWith point)).encode, none⟩ := by
  rw [info?, element?_eq hpoint]
  rfl

theorem encode_info (key : Bytes) :
    (PrivateInfo.mk algorithm key none).encode =
      (sequence [natural 0, algorithm.element, octetString key]).encode := rfl

theorem length_info_le {key : Bytes} (h : key.length ≤ 160) :
    (PrivateInfo.mk algorithm key none).encode.length ≤ maxLength := by
  have hversion : (natural 0).encode.length = 3 := by decide
  have hkey : (octetString key).encode.length ≤ _ := length_octetString_le (by omega)
  have hmembers : ([natural 0, algorithm.element, octetString key].flatMap Element.encode).length ≤ 200 := by
    simp only [List.flatMap_cons, List.flatMap_nil, List.append_nil, List.length_append, length_algorithm]
    omega
  rw [encode_info]
  exact Nat.le_trans (length_sequence_le_add hmembers (by decide)) (by decide)

theorem afterCurve?_held (point : PublicKey) : afterCurve? [held point] = some [held point] := by
  have hbefore : PrivateInfo.beforePublicKey (held point) = false := by
    change (Tag.isContext publicKeyTag && Tag.number publicKeyTag == 0) = false
    decide
  rw [afterCurve?, hbefore]
  rfl

theorem agrees_held (hpoint : k.publicKey? = some point) : k.agrees [held point] = true := by
  have hsingle : single? (held point).value = some (bitString point.encode) := by
    refine single?_encode rfl (Nat.le_trans (Element.length_encode_le _) ?_)
    simp only [bitString, List.length_cons, point.length_encode]
    decide
  have hbytes : (do wholeBytes? (← (← single? (held point).value).valueOf? Tag.bitString)) =
      some point.encode := by
    rw [hsingle]
    rfl
  have htag : (held point).tag = publicKeyTag := rfl
  simp only [agrees, htag, if_true, hbytes, hpoint, Option.map_some, Option.isSome_some, BEq.rfl,
    Bool.true_or, Bool.and_true]

theorem ofMembers?_membersWith (hlow : 0 < k.scalar) (hhigh : k.scalar < P256.order)
    (hpoint : k.publicKey? = some point) :
    ofMembers? (sequence (k.membersWith point)).encode = some k := by
  have hmembers : members? (sequence (k.membersWith point)).encode = some (k.membersWith point) := by
    refine members?_sequence ?_ (Nat.le_trans (k.length_sequence_membersWith point) (by decide))
    simp only [membersWith, List.forall_mem_cons]
    exact ⟨rfl, rfl, show Tag.isKnown publicKeyTag = true by decide, by simp⟩
  have hkey : PrivateKey.ofNat? (Bytes.toNat (Bytes.ofNat 32 k.scalar)) = some k := by
    rw [Bytes.toNat_ofNat, Nat.mod_eq_of_lt (Nat.lt_trans hhigh (by decide)), PrivateKey.ofNat?,
      if_pos ⟨hlow, hhigh⟩]
  have hversion : (natural 1).natural? = some 1 := natural?_natural 1
  have hlength : (Bytes.ofNat 32 k.scalar).length = 32 := Bytes.length_ofNat _ _
  rw [ofMembers?, hmembers, Option.bind_eq_bind, Option.bind_some, membersWith]
  simp only [Element.valueOf?, octetString, if_true, Option.bind_eq_bind, Option.bind_some,
    afterCurve?_held, hkey, hversion, hlength, agrees_held hpoint]
  rfl

/-- Key information for the curve is read as the key that it holds. -/
theorem parse_block {info : PrivateInfo} (halgorithm : info.algorithm = algorithm)
    (hlength : info.encode.length ≤ maxLength) (hkey : ofInfo? info = some k) :
    parse (Pem.Block.mk "PRIVATE KEY" info.encode).encode = .ok k := by
  have hcontents : contents? "PRIVATE KEY" (Pem.Block.mk "PRIVATE KEY" info.encode).encode =
      some info.encode := contents?_encode Rsa.isLabel_privateLabel hlength
  have hdecode : PrivateInfo.decode? info.encode = some info :=
    PrivateInfo.decode?_encode (halgorithm ▸ algorithm?_algorithm) hlength
  rw [parse, hcontents, Option.bind_eq_bind, Option.bind_some, hdecode, Option.bind_eq_bind,
    Option.bind_some, hkey]
  rfl

theorem ofInfo?_info (hlow : 0 < k.scalar) (hhigh : k.scalar < P256.order)
    (hpoint : k.publicKey? = some point) (publicKey : Option Bytes) :
    ofInfo? ⟨algorithm, (sequence (k.membersWith point)).encode, publicKey⟩ = some k := by
  rw [ofInfo?, if_pos isP256_algorithm]
  exact ofMembers?_membersWith hlow hhigh hpoint

/-- The document of a private key in bounds is written and read as that key. -/
theorem exists_document (hlow : 0 < k.scalar) (hhigh : k.scalar < P256.order)
    (hpoint : k.publicKey? = some point) :
    ∃ contents, k.document? = some (Pem.Block.mk "PRIVATE KEY" contents).encode ∧
      parse (Pem.Block.mk "PRIVATE KEY" contents).encode = .ok k := by
  let info : PrivateInfo := ⟨algorithm, (sequence (k.membersWith point)).encode, none⟩
  have hinfo : k.info? = some info := info?_eq hpoint
  have hlength : info.encode.length ≤ maxLength := length_info_le (k.length_sequence_membersWith point)
  refine ⟨info.encode, ?_, parse_block rfl hlength (ofInfo?_info hlow hhigh hpoint none)⟩
  rw [document?, hinfo]
  rfl

end PrivateKey

end Ecdsa

end KeyCustody
