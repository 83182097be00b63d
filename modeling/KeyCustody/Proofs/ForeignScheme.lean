import KeyCustody.Proofs.Signing
/-! # Keys under the scheme of another kind

A key pair that was read from a document may name a scheme that does not belong to its kind. RSA keys look at
their scheme when they sign and verify, after they have read their half, and refuse such a scheme. The keys of
the two curves do not look at it: they go on as they do under the scheme of their kind, and the signature is
accepted. -/

namespace KeyCustody.KeyPair

variable {k : KeyPair} {salt data : Bytes} {sig : Signature} {accepted : Bool}

/-- The same key under the scheme that its kind uses unless another is named. -/
def rescheme (k : KeyPair) : KeyPair := { k with scheme := k.keytype.defaultScheme }

/-! ## RSA keys -/

/-- An RSA key reads its private half and then refuses the scheme. -/
theorem signBytes_rsa_foreign (hkind : k.keytype = .rsa) (hforeign : k.scheme.keytype ≠ k.keytype) :
    k.signBytes salt data =
      Rsa.PrivateKey.parse k.keyval.privateHalf >>= fun _ => .error (.notRsaScheme k.scheme) := by
  unfold signBytes
  rw [hkind] at hforeign ⊢
  cases hscheme : k.scheme with
  | rsaPss => exact absurd (congrArg Scheme.keytype hscheme) hforeign
  | rsaPkcs1 => exact absurd (congrArg Scheme.keytype hscheme) hforeign
  | ed25519 => rfl
  | ecdsa => rfl

/-- An RSA key reads a signature and its public half and then refuses the scheme. -/
theorem verify_rsa_foreign (hkind : k.keytype = .rsa) (hforeign : k.scheme.keytype ≠ k.keytype) :
    k.verify data sig = (do
      let _ ← (Hex.decode sig.sig).mapError Failure.signatureText
      let _ ← Rsa.PublicKey.parse k.keyval.publicHalf
      .error (.notRsaScheme k.scheme)) := by
  unfold verify
  rw [hkind] at hforeign ⊢
  cases hscheme : k.scheme with
  | rsaPss => exact absurd (congrArg Scheme.keytype hscheme) hforeign
  | rsaPkcs1 => exact absurd (congrArg Scheme.keytype hscheme) hforeign
  | ed25519 => rfl
  | ecdsa => rfl

theorem signBytes_rsa_ne_ok (hkind : k.keytype = .rsa) (hforeign : k.scheme.keytype ≠ k.keytype)
    (b : Bytes) : k.signBytes salt data ≠ .ok b := by
  rw [signBytes_rsa_foreign hkind hforeign]
  intro h
  obtain ⟨-, -, h⟩ := Outcome.bind_eq_ok.mp h
  cases h

theorem verify_rsa_ne_ok (hkind : k.keytype = .rsa) (hforeign : k.scheme.keytype ≠ k.keytype) :
    k.verify data sig ≠ .ok accepted := by
  rw [verify_rsa_foreign hkind hforeign]
  intro h
  obtain ⟨-, -, h⟩ := Outcome.bind_eq_ok.mp h
  obtain ⟨-, -, h⟩ := Outcome.bind_eq_ok.mp h
  cases h

/-! ## Keys of the curves -/

theorem sign_rescheme (hkind : k.keytype ≠ .rsa) : k.rescheme.sign salt data = k.sign salt data := by
  obtain ⟨keytype, scheme, keyid, hashAlgorithms, keyval⟩ := k
  cases keytype with
  | rsa => exact absurd rfl hkind
  | ed25519 => rfl
  | ecdsa => rfl

theorem verify_rescheme (hkind : k.keytype ≠ .rsa) : k.rescheme.verify data sig = k.verify data sig := by
  obtain ⟨keytype, scheme, keyid, hashAlgorithms, keyval⟩ := k
  cases keytype with
  | rsa => exact absurd rfl hkind
  | ed25519 => rfl
  | ecdsa => rfl

/-- A key whose scheme belongs to another kind signs some data, or gives a verdict on a signature, if and only
if it is a key of a curve that does the same under the scheme of its kind. RSA keys come to neither, and where
their half can be read it is the scheme that they refuse. -/
theorem foreign_scheme (hforeign : k.scheme.keytype ≠ k.keytype) :
    (k.sign salt data = .ok sig ↔ k.keytype ≠ .rsa ∧ k.rescheme.sign salt data = .ok sig) ∧
      (k.verify data sig = .ok accepted ↔
        k.keytype ≠ .rsa ∧ k.rescheme.verify data sig = .ok accepted) ∧
      (k.keytype = .rsa → k.hasPrivate = true →
        ∀ key, Rsa.PrivateKey.parse k.keyval.privateHalf = .ok key →
          k.sign salt data = .error (.notRsaScheme k.scheme)) := by
  refine ⟨?_, ?_, fun hkind hprivate key hkey => ?_⟩
  · constructor
    · intro hsign
      have hkind : k.keytype ≠ .rsa := by
        intro hkind
        obtain ⟨-, b, hbytes, -⟩ := sign_eq_ok.mp hsign
        exact signBytes_rsa_ne_ok hkind hforeign b hbytes
      exact ⟨hkind, (sign_rescheme hkind).trans hsign⟩
    · rintro ⟨hkind, hsign⟩
      exact (sign_rescheme hkind).symm.trans hsign
  · constructor
    · intro hverify
      have hkind : k.keytype ≠ .rsa := fun hkind => verify_rsa_ne_ok hkind hforeign hverify
      exact ⟨hkind, (verify_rescheme hkind).trans hverify⟩
    · rintro ⟨hkind, hverify⟩
      exact (verify_rescheme hkind).symm.trans hverify
  · unfold sign
    rw [hprivate, signBytes_rsa_foreign hkind hforeign, hkey]
    rfl

/-- The Ed25519 key `specimen`, which claims that it signs with ECDSA. -/
def misnamed : KeyPair := { specimen with scheme := .ecdsa }

theorem exists_signature_specimen :
    ∃ sig, specimen.sign [] [1, 2, 3] = .ok sig ∧ specimen.verify [1, 2, 3] sig = .ok true := by
  have hsigned : (specimen.signBytes [] [1, 2, 3]).toOption.isSome = true := by decide +kernel
  obtain ⟨b, hb⟩ := Outcome.exists_ok hsigned
  have hhalves := corresponds_of_validate validate_specimen (by decide)
  exact ⟨_, sign_eq_ok.mpr ⟨by decide, b, hb, rfl⟩,
    verify_of_signBytes hhalves curveAccepts_specimen (by decide) hb specimen.keyid⟩

theorem foreign_scheme_misnamed :
    misnamed.scheme.keytype ≠ misnamed.keytype ∧
      ∃ sig, misnamed.sign [] [1, 2, 3] = .ok sig ∧ misnamed.verify [1, 2, 3] sig = .ok true := by
  have hforeign : misnamed.scheme.keytype ≠ misnamed.keytype := by decide
  obtain ⟨sig, hsign, hverify⟩ := exists_signature_specimen
  have htheorem := @foreign_scheme misnamed [] [1, 2, 3] sig true hforeign
  exact ⟨hforeign, sig, htheorem.1.mpr ⟨by decide, hsign⟩, htheorem.2.1.mpr ⟨by decide, hverify⟩⟩

/-- A scheme of another kind keeps neither the private half from signing nor the public half from accepting. -/
theorem foreign_scheme_not_refused :
    ¬ ∀ k : KeyPair, k.scheme.keytype ≠ k.keytype →
      (∀ salt data sig, k.sign salt data ≠ .ok sig) ∧ ∀ data sig, k.verify data sig ≠ .ok true := by
  intro hall
  obtain ⟨sig, hsign, -⟩ := exists_signature_specimen
  have hsigned : misnamed.sign [] [1, 2, 3] = .ok sig :=
    (sign_rescheme (k := misnamed) (by decide)).symm.trans hsign
  exact (hall misnamed (by decide)).1 _ _ _ hsigned

end KeyCustody.KeyPair
