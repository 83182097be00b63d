import KeyCustody.Proofs.IterationLimit
import KeyCustody.Proofs.KeySpelling
/-! # RSA keys are read as they are written

The halves of an RSA key that is read are the documents of what was found in the text. Reading them
changes nothing any more: the private half opens without a password to the same key pair, and the public
half is read as that key pair without its private half, whatever text and password they come from. -/

namespace KeyCustody.Rsa

variable {text password : String} {scheme : Scheme} {k : KeyPair}

theorem readPublic_document {key : PublicKey} (hsound : key.isSound maxPublicBits = true)
    (hscheme : scheme.keytype = .rsa) :
    readPublic key.document scheme = .ok (.assembled .rsa scheme key.document "") :=
  readPublic_eq_ok.mpr ⟨key, PublicKey.parse_document hsound, hscheme, rfl⟩

/-- Reading the halves of a key that was read, with whatever password, gives that key. -/
theorem import_canonical (text password : String) (scheme : Scheme) (k : KeyPair) :
    (readPublic text scheme = .ok k → readPublic k.keyval.publicHalf scheme = .ok k) ∧
      (readPrivate text password scheme = .ok k →
        readPrivate k.keyval.privateHalf "" scheme = .ok k ∧
          readPublic k.keyval.publicHalf scheme = .ok k.publicOnly) := by
  constructor
  · intro h
    obtain ⟨key, hparse, hscheme, rfl⟩ := readPublic_eq_ok.mp h
    exact readPublic_document (PublicKey.isSound_of_parse hparse) hscheme
  · intro h
    obtain ⟨key, hunlock, document, hdocument, hscheme, rfl⟩ := readPrivate_eq_ok.mp h
    have hsound := isSound_of_unlock hunlock
    constructor
    · exact readPrivate_eq_ok.mpr
        ⟨key, PrivateKey.unlock_document hsound hdocument, document, hdocument, hscheme, rfl⟩
    · exact readPublic_document (PrivateKey.isSound_publicKey hsound) hscheme

/-- A public key among other text, and a private key under a password. -/
theorem import_canonical_toy :
    ∃ k k', (readPublic Custodian.annotated .rsaPss = .ok k ∧
        readPublic k.keyval.publicHalf .rsaPss = .ok k) ∧
      readPrivate Custodian.toyText "secret" .rsaPkcs1 = .ok k' ∧
        readPrivate k'.keyval.privateHalf "" .rsaPkcs1 = .ok k' ∧
          readPublic k'.keyval.publicHalf .rsaPkcs1 = .ok k'.publicOnly := by
  have hpublic : readPublic Custodian.annotated .rsaPss = .ok _ :=
    readPublic_eq_ok.mpr ⟨_, Custodian.parse_annotated, rfl, rfl⟩
  have hsome : Custodian.toyRsa.document?.isSome = true := by decide
  obtain ⟨document, hdocument⟩ := Option.isSome_iff_exists.mp hsome
  have hprivate : readPrivate Custodian.toyText "secret" .rsaPkcs1 = .ok _ :=
    readPrivate_eq_ok.mpr ⟨_, Custodian.unlock_toyText, document, hdocument, rfl, rfl⟩
  exact ⟨_, _, ⟨hpublic, (import_canonical _ "" _ _).1 hpublic⟩, hprivate,
    (import_canonical _ _ _ _).2 hprivate⟩

end KeyCustody.Rsa
