import KeyCustody.Proofs.GeneratedKeys
import KeyCustody.Proofs.KindMismatch
import KeyCustody.Proofs.RsaEncryption
/-! # Private keys of another algorithm

Where an RSA key is asked for, key information is opened before its algorithm is looked at. The private half
of an ECDSA key is a block that opens without a password, whatever blanks and text stand around it; its
encryption is one that opens under its password. Either way the algorithm is found and named. -/

namespace KeyCustody

open Der

variable {text password : String} {scheme : Scheme} {k : KeyPair} {block : Pem.Block} {info : PrivateInfo}
  {rounds : Nat} {salt iv : Bytes}

namespace Rsa

/-- Key information that a block opens to is refused if its algorithm is that of another kind of key. -/
theorem readPrivate_foreign {found : KeyType} (hblock : block? (Text.trim text.toList) = some block)
    (hopens : PrivateKey.Opens block info password)
    (hfound : KeyType.ofOid? info.algorithm.name = some found) (hother : found ≠ .rsa) :
    readPrivate text password scheme = .error (.unexpectedKeyType .rsa found) := by
  have halgorithm : checkAlgorithm .privateHalf info.algorithm.name =
      .error (.unexpectedKeyType .rsa found) := by
    rw [checkAlgorithm, hfound]
    cases found with
    | rsa => exact absurd rfl hother
    | ed25519 => rfl
    | ecdsa => rfl
  rw [readPrivate, PrivateKey.unlock_of_opens hblock hopens, halgorithm]
  rfl

end Rsa

/-- A text that holds an ECDSA key is one block around key information for the curve, as it is read where RSA
keys are. -/
theorem Ecdsa.PrivateKey.opens_of_parse {key : PrivateKey} (h : parse text = .ok key) :
    ∃ block info, Rsa.block? (Text.trim text.toList) = some block ∧
      PrivateInfo.decode? block.contents = some info ∧ Rsa.PrivateKey.Opens block info "" ∧
        KeyType.ofOid? info.algorithm.name = some .ecdsa := by
  rw [parse, Outcome.ofOption_eq_ok] at h
  obtain ⟨contents, hcontents, h⟩ := Option.bind_eq_some_iff.mp h
  obtain ⟨info, hinfo, hkey⟩ := Option.bind_eq_some_iff.mp h
  obtain ⟨block, hblock, hlabel, rfl⟩ := contents?_eq_some.mp hcontents
  refine ⟨block, info, hblock, hinfo, .plain hlabel hinfo, ?_⟩
  rw [ofInfo?] at hkey
  split_ifs at hkey with halgorithm
  rw [isP256, Bool.and_eq_true, beq_iff_eq] at halgorithm
  rw [halgorithm.1]
  rfl

namespace Rsa

/-- The private half of a valid ECDSA key is refused as an RSA key because of its kind, as it stands and when it
comes back from encryption under a password. Encryption fails if and only if its outcome would be longer than
encodings may be. -/
theorem readPrivate_ecdsa (hkind : k.keytype = .ecdsa) (hvalid : k.validate = .ok ())
    (hprivate : k.hasPrivate = true) (hpassword : password ≠ "") (hrounds : rounds ≤ maxRounds)
    (hsalt : salt.length = 16) (hiv : iv.length = 16) (scheme : Scheme) :
    readPrivate k.keyval.privateHalf "" scheme = .error (.unexpectedKeyType .rsa .ecdsa) ∧
      (∃ info, privateInfo k.keyval.privateHalf = .ok info ∧
        (EncryptedInfo.fullLength info.encode.length rounds ≤ maxLength →
          ∃ document, encryptText k.keyval.privateHalf password rounds salt iv = .ok document ∧
            readPrivate document password scheme = .error (.unexpectedKeyType .rsa .ecdsa)) ∧
        (maxLength < EncryptedInfo.fullLength info.encode.length rounds →
          encryptText k.keyval.privateHalf password rounds salt iv = .error .rsaEncryption)) ∧
      (Failure.unexpectedKeyType .rsa .ecdsa).NamesFound .ecdsa := by
  obtain ⟨key, hparse⟩ : ∃ key, Ecdsa.PrivateKey.parse k.keyval.privateHalf = .ok key := by
    cases KeyPair.corresponds_of_validate hvalid hprivate with
    | rsa _ hother => cases hkind.symm.trans hother
    | ed25519 _ hother => cases hkind.symm.trans hother
    | ecdsa key _ _ hkey => exact ⟨key, hkey⟩
  obtain ⟨block, info, hblock, hdecode, hopens, hfound⟩ := Ecdsa.PrivateKey.opens_of_parse hparse
  obtain ⟨hfits, hlong⟩ := encryptText_opens hblock hdecode hpassword hrounds hsalt hiv
  refine ⟨readPrivate_foreign hblock hopens hfound (by decide),
    ⟨info, privateInfo_eq_ok.mpr ⟨block, hblock, hdecode⟩, fun hfull => ?_, hlong⟩,
    Failure.namesFound_unexpectedKeyType _ _⟩
  obtain ⟨document, block', hdocument, hblock', hopens'⟩ := hfits hfull
  exact ⟨document, hdocument, readPrivate_foreign hblock' hopens' hfound (by decide)⟩

/-- The key of the number 1, under the greatest count. -/
theorem readPrivate_ecdsa_one :
    ∃ k document, Ecdsa.keyPair ⟨1⟩ = .ok k ∧
      readPrivate k.keyval.privateHalf "" .rsaPss = .error (.unexpectedKeyType .rsa .ecdsa) ∧
        encryptText k.keyval.privateHalf "secret" maxRounds (List.replicate 16 7) (List.replicate 16 0xFF) =
          .ok document ∧
        readPrivate document "secret" .rsaPss = .error (.unexpectedKeyType .rsa .ecdsa) := by
  have hshort : ∀ info ∈ (Ecdsa.PrivateKey.mk 1).info?, info.encode.length ≤ maxLength ∧
      info.algorithm.element.algorithm? = some info.algorithm ∧
        EncryptedInfo.fullLength info.encode.length maxRounds ≤ maxLength := by
    decide +kernel
  obtain ⟨k, hpair, hmade⟩ := @Ecdsa.exists_keyPair ⟨1⟩ _ (by decide) (by decide)
    Ecdsa.PrivateKey.publicKey?_one Curve.P256.Affine.decode?_encode_base
  obtain ⟨point, text, -, htext, hk⟩ := Ecdsa.keyPair_eq_ok.mp hpair
  rw [Ecdsa.PrivateKey.document?] at htext
  obtain ⟨info, hinfo, htext⟩ := Option.bind_eq_some_iff.mp htext
  obtain ⟨hlength, halgorithm, hfull⟩ := hshort info hinfo
  have hhalf : k.keyval.privateHalf = (Pem.Block.mk privateLabel info.encode).encode := by
    subst hk
    exact (Option.some.inj htext).symm
  have hsalt : (List.replicate 16 (7 : UInt8)).length = 16 := rfl
  have hiv : (List.replicate 16 (0xFF : UInt8)).length = 16 := rfl
  obtain ⟨hplain, ⟨info', hinfo', hfits, -⟩, -⟩ := readPrivate_ecdsa hmade.keytype hmade.valid
    hmade.hasPrivate (show "secret" ≠ "" by decide) (Nat.le_refl maxRounds) hsalt hiv .rsaPss
  rw [hhalf, privateInfo_encode halgorithm hlength] at hinfo'
  obtain rfl := Except.ok.inj hinfo'
  obtain ⟨document, hdocument, hrefused⟩ := hfits hfull
  exact ⟨k, document, hpair, hplain, hdocument, hrefused⟩

/-- Not every valid key comes back from encryption as one of another kind: the key of the number 1 is valid with
a private half of more than three hundred million characters, to which encryption can add nothing. -/
theorem readPrivate_ecdsa_swollen :
    ¬ ∀ (k : KeyPair) (password : String) (rounds : Nat) (salt iv : Bytes) (scheme : Scheme),
      k.keytype = .ecdsa → k.validate = .ok () → k.hasPrivate = true → password ≠ "" → 0 < rounds →
        rounds ≤ maxRounds → salt.length = 16 → iv.length = 16 →
          (encryptText k.keyval.privateHalf password rounds salt iv >>= fun document =>
            readPrivate document password scheme) = .error (.unexpectedKeyType .rsa .ecdsa) := by
  intro h
  obtain ⟨hlow, hhigh, hshort⟩ : 0 < (Ecdsa.PrivateKey.mk 1).scalar ∧
      (Ecdsa.PrivateKey.mk 1).scalar < Curve.P256.order ∧
      ∀ info ∈ (Ecdsa.PrivateKey.mk 1).info?, ((leading info).flatMap Element.encode).length ≤ 2 ^ 24 := by
    decide +kernel
  have hpoint := Ecdsa.PrivateKey.publicKey?_one
  have hread := Curve.P256.Affine.decode?_encode_base
  generalize Ecdsa.PrivateKey.mk 1 = key at hlow hhigh hpoint hshort
  generalize Curve.P256.base = point at hpoint hread
  let info : PrivateInfo := ⟨Ecdsa.algorithm, (sequence (key.membersWith point)).encode, none⟩
  have hleading := hshort info (Ecdsa.PrivateKey.info?_eq hpoint)
  have hlength := Nat.le_of_eq (length_encode_swollen hleading)
  have hparse : Ecdsa.PrivateKey.parse (swollenText info) = .ok key :=
    Ecdsa.PrivateKey.parse_block rfl hlength (Ecdsa.PrivateKey.ofInfo?_info hlow hhigh hpoint _)
  have hpublic : Ecdsa.PublicKey.parse (Ecdsa.PublicKey.document point) = .ok point := by
    rw [Ecdsa.PublicKey.parse_document_eq, hread]
    rfl
  let k : KeyPair := .assembled .ecdsa .ecdsa (Ecdsa.PublicKey.document point) (swollenText info)
  have hhalves : k.Corresponds := .ecdsa key point rfl hparse hpublic hpoint
  have hvalid : k.validate = .ok () := KeyPair.validate_eq_ok.mpr ⟨rfl, KeyPair.validateHalves_of_corresponds hhalves⟩
  have hsalt : (List.replicate 16 (7 : UInt8)).length = 16 := rfl
  have hfails : encryptText k.keyval.privateHalf "secret" 1 _ _ = .error .rsaEncryption :=
    encryptText_swollenText Ecdsa.algorithm?_algorithm hleading (by decide) (by decide) hsalt hsalt
  have hrefused := h k "secret" 1 _ _ .rsaPss rfl hvalid (bne_iff_ne.mpr Pem.Block.encode_ne_empty) (by decide)
    Nat.one_pos (by decide) hsalt hsalt
  rw [hfails] at hrefused
  cases hrefused

end Rsa

end KeyCustody
