import KeyCustody.Custodian
import KeyCustody.Proofs.KeyPair
import KeyCustody.Proofs.RsaDocument
import KeyCustody.Proofs.Run
/-! # Keys that are read are in order

Whatever a file holds, a key that is read from it is of the expected kind, its scheme belongs to that
kind, its identifier is the one of its public data and its halves are valid. Documents are validated
before they are accepted; RSA keys are written anew, and what is written is read as the same key. -/

namespace KeyCustody

variable {expected : KeyType} {scheme : Scheme} {k : KeyPair} {text password : String}

/-! ## Sound keys -/

/-- A key of an expected kind that is in order. -/
structure KeyPair.Sound (expected : KeyType) (k : KeyPair) : Prop where
  keytype : k.keytype = expected
  scheme : k.scheme.keytype = expected
  keyid : k.keyid = computeKeyid k.keytype k.scheme k.keyval.publicHalf .sha256
  valid : k.validate = .ok ()

/-- A sound key of which the public half alone is held. -/
structure KeyPair.PublicSound (expected : KeyType) (k : KeyPair) : Prop
    extends k.Sound expected where
  privateHalf : k.keyval.privateHalf = ""
  hashAlgorithms : k.hashAlgorithms = none

/-- A sound key with a private half, and with the custodian's hash algorithms unless it is an RSA
key. -/
structure Custodian.PrivateSound (c : Custodian) (expected : KeyType) (k : KeyPair) : Prop
    extends k.Sound expected where
  privateHalf : k.keyval.privateHalf ≠ ""
  hashAlgorithms :
    k.hashAlgorithms = if expected = .rsa then none else some c.settings.hashAlgorithms

theorem KeyPair.validate_eq_ok :
    k.validate = .ok () ↔ k.scheme.keytype = k.keytype ∧ k.validateHalves = .ok () := by
  rw [← checkScheme_eq_ok, validate, Outcome.bind_eq_ok]
  constructor
  · rintro ⟨u, hscheme, hhalves⟩
    exact ⟨hscheme, hhalves⟩
  · rintro ⟨hscheme, hhalves⟩
    exact ⟨(), hscheme, hhalves⟩

theorem KeyPair.sound_assembled {publicHalf privateHalf : String} (hscheme : scheme.keytype = expected)
    (hhalves : (assembled expected scheme publicHalf privateHalf).validateHalves = .ok ()) :
    (assembled expected scheme publicHalf privateHalf).Sound expected where
  keytype := rfl
  scheme := hscheme
  keyid := rfl
  valid := validate_eq_ok.mpr ⟨hscheme, hhalves⟩

theorem KeyPair.validate_assembled (h : k.validate = .ok ()) :
    (assembled k.keytype k.scheme k.keyval.publicHalf "").validate = .ok () := by
  obtain ⟨hscheme, hhalves⟩ := validate_eq_ok.mp h
  refine validate_eq_ok.mpr ⟨hscheme, ?_⟩
  obtain ⟨keytype, scheme, keyid, hashAlgorithms, publicHalf, privateHalf⟩ := k
  cases keytype <;>
  · obtain ⟨key, hkey, -⟩ := Outcome.bind_eq_ok.mp hhalves
    simp only [assembled, validateHalves, hkey, Outcome.ok_bind]
    rfl

/-! ## RSA keys -/

namespace Rsa

theorem readPublic_eq_ok :
    readPublic text scheme = .ok k ↔
      ∃ key, PublicKey.parse text = .ok key ∧ scheme.keytype = .rsa ∧
        k = .assembled .rsa scheme key.document "" := by
  simp only [readPublic, Outcome.bind_eq_ok, KeyPair.make_eq_ok]

theorem readPrivate_eq_ok :
    readPrivate text password scheme = .ok k ↔
      ∃ key, PrivateKey.unlock text password = .ok key ∧
        ∃ document, key.document? = some document ∧ scheme.keytype = .rsa ∧
          k = .assembled .rsa scheme key.publicKey.document document := by
  simp only [readPrivate, keyPair, wellFormed, Outcome.bind_eq_ok, Outcome.ofOption_eq_ok,
    KeyPair.make_eq_ok]

/-- An RSA public key that is read is valid, since its half is the document of a sound key. -/
theorem readPublic_sound (h : readPublic text scheme = .ok k) : k.PublicSound .rsa := by
  obtain ⟨key, hkey, hscheme, rfl⟩ := readPublic_eq_ok.mp h
  have hparse := PublicKey.parse_document (PublicKey.isSound_of_parse hkey)
  refine ⟨KeyPair.sound_assembled hscheme ?_, rfl, rfl⟩
  simp only [KeyPair.assembled, KeyPair.validateHalves, hparse, Outcome.ok_bind]
  rfl

/-- Every way to a private key ends in the check that it is sound. -/
theorem isSound_of_unlock {key : PrivateKey} (h : PrivateKey.unlock text password = .ok key) :
    key.isSound = true := by
  obtain ⟨block, info, -, -, hkey⟩ := PrivateKey.unlock_eq_ok.mp h
  exact PrivateKey.isSound_of_ofInfo? hkey

/-- An RSA private key that is read is valid, since its halves are the documents of a sound key and
of its public key. -/
theorem readPrivate_sound (c : Custodian) (h : readPrivate text password scheme = .ok k) :
    c.PrivateSound .rsa k := by
  obtain ⟨key, hkey, document, hdocument, hscheme, rfl⟩ := readPrivate_eq_ok.mp h
  have hsound := isSound_of_unlock hkey
  have hpublic := PublicKey.parse_document (PrivateKey.isSound_publicKey hsound)
  have hprivate := PrivateKey.parse_document hsound hdocument
  have hnonempty := PrivateKey.document_ne_empty hdocument
  refine ⟨KeyPair.sound_assembled hscheme ?_, hnonempty, rfl⟩
  simp only [KeyPair.assembled, KeyPair.validateHalves, hpublic, hprivate, Outcome.ok_bind,
    KeyPair.hasPrivate, bne_iff_ne, ne_eq, hnonempty, not_false_eq_true, if_true, BEq.rfl]
  rfl

end Rsa

/-! ## Other keys -/

theorem KeyPair.ofMetadata_sound {m : Metadata} (h : ofMetadata m expected = .ok k) :
    k.PublicSound expected := by
  unfold ofMetadata at h
  split_ifs at h with hkind
  · cases h
  · obtain ⟨k', hmake, h⟩ := Outcome.bind_eq_ok.mp h
    obtain ⟨u, hvalid, h⟩ := Outcome.bind_eq_ok.mp h
    cases h
    obtain ⟨hscheme, rfl⟩ := make_eq_ok.mp hmake
    rw [ne_eq, not_not] at hkind
    cases hkind
    exact ⟨⟨rfl, hscheme, rfl, hvalid⟩, rfl, rfl⟩

namespace Custodian

variable {c : Custodian} {path : Path} {given : Option String} {w w' : World}

/-- A document gives a key if it describes a key pair of the expected kind that is in order and has a
private half. -/
theorem keyPairOf_eq_ok {document : Bytes} :
    c.keyPairOf document expected = .ok k ↔
      ∃ stored, KeyPair.parse document = .ok stored ∧ stored.keytype = expected ∧
        ∃ k', KeyPair.make stored.keytype stored.scheme stored.keyval.publicHalf
            stored.keyval.privateHalf = .ok k' ∧
          k'.hasPrivate = true ∧ k'.validate = .ok () ∧
          k = { k' with hashAlgorithms := some c.settings.hashAlgorithms } := by
  unfold keyPairOf
  constructor
  · intro h
    obtain ⟨stored, hstored, h⟩ := Outcome.bind_eq_ok.mp h
    split_ifs at h with hkind
    · cases h
    · obtain ⟨k', hmake, h⟩ := Outcome.bind_eq_ok.mp h
      split_ifs at h with hprivate
      · cases h
      · obtain ⟨u, hvalid, h⟩ := Outcome.bind_eq_ok.mp h
        cases h
        exact ⟨stored, hstored, not_not.mp hkind, k', hmake, by simpa using hprivate, hvalid, rfl⟩
  · rintro ⟨stored, hstored, rfl, k', hmake, hprivate, hvalid, rfl⟩
    simp only [hstored, hmake, hprivate, hvalid, Outcome.ok_bind, ne_eq, not_true_eq_false, if_false,
      Bool.not_true, Bool.false_eq_true]
    rfl

theorem keyPairOf_sound {document : Bytes} (hkind : expected ≠ .rsa)
    (h : c.keyPairOf document expected = .ok k) : c.PrivateSound expected k := by
  obtain ⟨stored, -, rfl, k', hmake, hprivate, hvalid, rfl⟩ := keyPairOf_eq_ok.mp h
  obtain ⟨hscheme, rfl⟩ := KeyPair.make_eq_ok.mp hmake
  refine ⟨⟨rfl, hscheme, rfl, ?_⟩, ?_, ?_⟩
  · exact (KeyPair.validate_congr rfl rfl rfl).trans hvalid
  · simpa [KeyPair.hasPrivate] using hprivate
  · rw [if_neg hkind]

/-! ## All keys -/

/-- What comes after the look at the kind that a text names. -/
theorem ok_of_named {found? : Option KeyType} {next : Unit → Outcome KeyPair}
    (h : (match found? with
      | some found =>
        if found ≠ expected then throw (Failure.unexpectedKeyType expected found) >>= next
        else next ()
      | none => next ()) = .ok k) : next () = .ok k := by
  cases found? with
  | none => exact h
  | some found =>
    simp only at h
    split_ifs at h
    · cases h
    · exact h

theorem publicKeyOf_sound (h : publicKeyOf text expected scheme = .ok k) :
    k.PublicSound expected := by
  cases expected with
  | rsa =>
    obtain ⟨u, -, h⟩ := Outcome.bind_eq_ok.mp (ok_of_named h)
    exact Rsa.readPublic_sound h
  | ed25519 =>
    obtain ⟨m, -, h⟩ := Outcome.bind_eq_ok.mp (ok_of_named h)
    exact KeyPair.ofMetadata_sound h
  | ecdsa =>
    obtain ⟨m, -, h⟩ := Outcome.bind_eq_ok.mp (ok_of_named h)
    exact KeyPair.ofMetadata_sound h

theorem privateKeyOf_sound (h : c.privateKeyOf text expected password scheme = .ok k) :
    c.PrivateSound expected k := by
  by_cases hkind : expected = .rsa
  · rw [hkind] at h ⊢
    simp only [privateKeyOf] at h
    split at h
    · cases h
    · exact Rsa.readPrivate_sound c h
  · have hdocument : ∃ document, c.keyPairOf document expected = .ok k := by
      unfold privateKeyOf at h
      split at h
      · exact absurd rfl hkind
      · split_ifs at h
        · exact ⟨_, h⟩
        · obtain ⟨document, -, h⟩ := Outcome.bind_eq_ok.mp h
          exact ⟨document, h⟩
    obtain ⟨document, hdocument⟩ := hdocument
    exact keyPairOf_sound hkind hdocument

theorem loadPublic_sound (h : (loadPublic path expected scheme).runIn w = (.ok k, w')) :
    k.PublicSound expected := by
  obtain ⟨u, w₁, -, h⟩ := Action.runIn_bind_ok h
  obtain ⟨text, w₂, -, h⟩ := Action.runIn_bind_ok h
  rw [Action.runIn_ofOutcome] at h
  exact publicKeyOf_sound (Prod.mk.inj h).1

theorem loadPrivate_sound (h : (c.loadPrivate path expected given scheme).runIn w = (.ok k, w')) :
    c.PrivateSound expected k := by
  have hlast : ∀ w₁, (Password.acquire given (Password.importPrompt expected path) false
      c.settings.maxPasswordAttempts.toNat >>= fun password => Action.readText path >>= fun text =>
        Action.ofOutcome (c.privateKeyOf text expected password scheme)).runIn w₁ = (.ok k, w') →
      c.PrivateSound expected k := by
    intro w₁ h
    obtain ⟨password, w₂, -, h⟩ := Action.runIn_bind_ok h
    obtain ⟨text, w₃, -, h⟩ := Action.runIn_bind_ok h
    rw [Action.runIn_ofOutcome] at h
    exact privateKeyOf_sound (Prod.mk.inj h).1
  unfold loadPrivate at h
  obtain ⟨u, w₁, -, h⟩ := Action.runIn_bind_ok h
  simp only at h
  split_ifs at h
  · obtain ⟨u, w₂, -, h⟩ := Action.runIn_bind_ok h
    exact hlast w₂ h
  · exact hlast w₁ h

/-- Whatever the files hold and however a key is read, the key is sound. -/
theorem read_sound (c : Custodian) (expected : KeyType) (scheme : Scheme) (path : Path)
    (given : Option String) (w w' : World) (k : KeyPair) :
    ((readPublic path expected).runIn w = (.ok k, w') → k.PublicSound expected) ∧
      ((importRsaPublic path scheme).runIn w = (.ok k, w') → k.PublicSound .rsa) ∧
      ((c.readPrivate path expected given).runIn w = (.ok k, w') → c.PrivateSound expected k) ∧
      ((c.importRsaPrivate path given scheme).runIn w = (.ok k, w') → c.PrivateSound .rsa k) :=
  ⟨loadPublic_sound, loadPublic_sound, loadPrivate_sound, loadPrivate_sound⟩

def toyRsa : Rsa.PrivateKey := ⟨⟨33, 3⟩, 7, 3, 11⟩

/-- A world that holds the public half of one key and both halves of another. -/
def stocked : World :=
  { World.start [] [] fun _ => 0 with
    tree := ⟨[
      (["k.pub"], .file (Text.utf8 KeyPair.specimen.metadata.document)),
      (["r.pub"], .file (Text.utf8 toyRsa.publicKey.document)),
      (["r"], .file (Text.utf8 (toyRsa.document?.getD "")))]⟩ }

theorem read_sound_stocked :
    ∃ k₁ k₂ k₃ k₄ w₁ w₂ w₃ w₄,
      ((readPublic ⟨"k.pub"⟩ .ed25519).runIn stocked = (.ok k₁, w₁) ∧ k₁.PublicSound .ed25519) ∧
      ((importRsaPublic ⟨"r.pub"⟩ .rsaPkcs1).runIn stocked = (.ok k₂, w₂) ∧ k₂.PublicSound .rsa) ∧
      ((default.readPrivate ⟨"r"⟩ .rsa (some "")).runIn stocked = (.ok k₃, w₃) ∧
        default.PrivateSound .rsa k₃) ∧
      ((default.importRsaPrivate ⟨"r"⟩ (some "") .rsaPkcs1).runIn stocked = (.ok k₄, w₄) ∧
        default.PrivateSound .rsa k₄) := by
  have h₁ : ((readPublic ⟨"k.pub"⟩ .ed25519).runIn stocked).1.toOption.isSome = true := by
    decide +kernel
  have h₂ : ((importRsaPublic ⟨"r.pub"⟩ .rsaPkcs1).runIn stocked).1.toOption.isSome = true := by
    decide +kernel
  have h₃ : ((default.readPrivate ⟨"r"⟩ .rsa (some "")).runIn stocked).1.toOption.isSome = true := by
    decide +kernel
  have h₄ : ((default.importRsaPrivate ⟨"r"⟩ (some "") .rsaPkcs1).runIn stocked).1.toOption.isSome =
      true := by
    decide +kernel
  obtain ⟨k₁, w₁, hw₁⟩ := Action.runIn_eq_ok h₁
  obtain ⟨k₂, w₂, hw₂⟩ := Action.runIn_eq_ok h₂
  obtain ⟨k₃, w₃, hw₃⟩ := Action.runIn_eq_ok h₃
  obtain ⟨k₄, w₄, hw₄⟩ := Action.runIn_eq_ok h₄
  exact ⟨k₁, k₂, k₃, k₄, w₁, w₂, w₃, w₄,
    ⟨hw₁, (read_sound default .ed25519 .rsaPkcs1 _ none stocked w₁ k₁).1 hw₁⟩,
    ⟨hw₂, (read_sound default .rsa .rsaPkcs1 _ none stocked w₂ k₂).2.1 hw₂⟩,
    ⟨hw₃, (read_sound default .rsa .rsaPkcs1 _ _ stocked w₃ k₃).2.2.1 hw₃⟩,
    ⟨hw₄, (read_sound default .rsa .rsaPkcs1 _ _ stocked w₄ k₄).2.2.2 hw₄⟩⟩

end Custodian

end KeyCustody
