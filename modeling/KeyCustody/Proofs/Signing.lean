import KeyCustody.Proofs.EcdsaDocument
import KeyCustody.Proofs.KeySpelling
import KeyCustody.Proofs.RsaSignature
/-! # Signatures are accepted under the public half

Validation, signing and verification each read the halves of a key for themselves. What validation compares
is what signing and verification use, so a signature is made by the private key of which the public key
verifies it; that key accepts what its private key has signed. For RSA keys nothing is assumed about that. For
the others it is what the curve is for: that the numbers of a signature are accepted is assumed, that they are
read back from its bytes is not. -/

namespace KeyCustody

/-! ## Signatures of the curves there and back -/

namespace Ecdsa

open Curve

variable {g : Signature} {key : PrivateKey} {message : Bytes}

theorem Signature.length_encode_le (h : g.isSound = true) : g.encode.length ≤ Der.maxLength := by
  simp only [isSound, Bool.and_eq_true, decide_eq_true_eq] at h
  obtain ⟨⟨⟨-, hr⟩, -⟩, hs⟩ := h
  have horder : P256.order < 2 ^ 256 := by decide
  have hr' := Der.length_natural_le (Nat.lt_trans hr horder) (by decide) (by decide)
  have hs' := Der.length_natural_le (Nat.lt_trans hs horder) (by decide) (by decide)
  have hlength := Der.length_sequence_le (Der.natural g.r) (Der.natural g.s)
  have hmax := Der.maxLength_eq
  rw [encode]
  omega

/-- The numbers of a signature are read back from their encoding. -/
theorem Signature.decode?_encode (h : g.isSound = true) : decode? g.encode = some g := by
  have hmembers : Der.members? g.encode = some [Der.natural g.r, Der.natural g.s] := by
    refine Der.members?_sequence ?_ (length_encode_le h)
    simp only [List.forall_mem_cons]
    exact ⟨rfl, rfl, by simp⟩
  simp only [decode?, hmembers, Option.bind_eq_bind, Option.bind_some, Der.natural?_natural, h, if_true]
  rfl

theorem isSound_of_signature? (h : signature? key message = some g) : g.isSound = true := by
  simp only [signature?, signWith?, Option.bind_eq_bind, Option.bind_eq_some_iff] at h
  obtain ⟨multiplier, -, point, -, h⟩ := h
  split_ifs at h with hsound
  exact Option.some.inj h ▸ hsound

theorem verify_encode (h : signature? key message = some g) (publicKey : PublicKey) (data : Bytes) :
    verify publicKey data g.encode = accepts publicKey data g := by
  rw [verify, Signature.decode?_encode (isSound_of_signature? h), Option.any_some]

end Ecdsa

namespace Ed25519

open Curve.Edwards25519

theorem length_scalarBytes (n : Nat) : (scalarBytes n).length = 32 := by
  rw [scalarBytes, List.length_reverse, Bytes.length_ofNat]

theorem number_scalarBytes {n : Nat} (h : n < order) : number (scalarBytes n) = n := by
  rw [number, scalarBytes, List.reverse_reverse, Bytes.toNat_ofNat]
  exact Nat.mod_eq_of_lt (Nat.lt_trans h (by decide))

/-- The point and the number of a signature are read back from its bytes. -/
theorem Signature.decode?_encode {g : Signature} (hpoint : g.point.length = 32) (hscalar : g.scalar < order) :
    decode? g.encode = some g := by
  have hlength : g.encode.length = 64 := by
    rw [encode, List.length_append, hpoint, length_scalarBytes]
  have hnumber : number (g.encode.drop 32) = g.scalar := by
    rw [encode, List.drop_left' hpoint, number_scalarBytes hscalar]
  simp only [decode?, hnumber, if_pos (And.intro hlength hscalar)]
  rw [encode, List.take_left' hpoint]

theorem verify_sign (seed key data : Bytes) :
    verify key data (sign seed data) = accepts key data (signature seed data) := by
  have hpoint : (signature seed data).point.length = 32 := by
    simp only [signature, Point.encode, List.length_reverse, Bytes.length_ofNat]
  have hscalar : (signature seed data).scalar < order := Nat.mod_lt _ (by decide)
  rw [verify, sign, Signature.decode?_encode hpoint hscalar, Option.any_some]

end Ed25519

/-! ## The halves of a key -/

namespace KeyPair

variable {k : KeyPair} {salt data : Bytes} {sig : Signature}

/-- What the two halves of a key hold: a private key, and the public key that belongs to it. -/
inductive Corresponds (k : KeyPair) : Prop where
  | rsa (key : Rsa.PrivateKey) (hkind : k.keytype = .rsa)
      (hprivate : Rsa.PrivateKey.parse k.keyval.privateHalf = .ok key)
      (hpublic : Rsa.PublicKey.parse k.keyval.publicHalf = .ok key.publicKey)
  | ed25519 (seed : Bytes) (hkind : k.keytype = .ed25519)
      (hprivate : Ed25519.bytesOf .privateHalf k.keyval.privateHalf = .ok seed)
      (hpublic : Ed25519.publicBytes k.keyval.publicHalf = .ok (Ed25519.publicKey seed))
  | ecdsa (key : Ecdsa.PrivateKey) (publicKey : Ecdsa.PublicKey) (hkind : k.keytype = .ecdsa)
      (hprivate : Ecdsa.PrivateKey.parse k.keyval.privateHalf = .ok key)
      (hpublic : Ecdsa.PublicKey.parse k.keyval.publicHalf = .ok publicKey)
      (hbelongs : key.publicKey? = some publicKey)

theorem corresponds_of_validate (hvalid : k.validate = .ok ()) (hprivate : k.hasPrivate = true) :
    k.Corresponds := by
  obtain ⟨-, hhalves⟩ := validate_eq_ok.mp hvalid
  unfold validateHalves at hhalves
  simp only [hprivate, if_true] at hhalves
  split at hhalves
  next hkind =>
    obtain ⟨publicKey, hpublic, hhalves⟩ := Outcome.bind_eq_ok.mp hhalves
    obtain ⟨key, hkey, hsame⟩ := Outcome.bind_eq_ok.mp hhalves
    rw [Outcome.require_eq_ok, beq_iff_eq] at hsame
    exact .rsa key hkind hkey (hsame ▸ hpublic)
  next hkind =>
    obtain ⟨publicKey, hpublic, hhalves⟩ := Outcome.bind_eq_ok.mp hhalves
    obtain ⟨seed, hseed, hsame⟩ := Outcome.bind_eq_ok.mp hhalves
    rw [Outcome.require_eq_ok, beq_iff_eq] at hsame
    exact .ed25519 seed hkind hseed (hsame ▸ hpublic)
  next hkind =>
    obtain ⟨publicKey, hpublic, hhalves⟩ := Outcome.bind_eq_ok.mp hhalves
    obtain ⟨key, hkey, hsame⟩ := Outcome.bind_eq_ok.mp hhalves
    rw [Outcome.require_eq_ok, beq_iff_eq] at hsame
    exact .ecdsa key publicKey hkind hkey hpublic hsame

/-- The halves of a key are in order if they belong together, whether the private one is there or not. -/
theorem validateHalves_of_corresponds (h : k.Corresponds) : k.validateHalves = .ok () := by
  unfold validateHalves
  cases h with
  | rsa key hkind hprivate hpublic =>
    rw [hkind]
    simp only [hpublic, hprivate, Outcome.ok_bind]
    split_ifs
    · rw [Outcome.require_eq_ok, beq_iff_eq]
    · rfl
  | ed25519 seed hkind hprivate hpublic =>
    rw [hkind]
    simp only [hpublic, hprivate, Outcome.ok_bind]
    split_ifs
    · rw [Outcome.require_eq_ok, beq_iff_eq]
    · rfl
  | ecdsa key publicKey hkind hprivate hpublic hbelongs =>
    rw [hkind]
    simp only [hpublic, hprivate, Outcome.ok_bind]
    split_ifs
    · rw [Outcome.require_eq_ok, beq_iff_eq, hbelongs]
    · rfl

/-- The documents of a number in bounds and of its point belong together, if that can be read. -/
theorem exists_corresponds_ecdsa {key : Ecdsa.PrivateKey} {point : Ecdsa.PublicKey} (hlow : 0 < key.scalar)
    (hhigh : key.scalar < Curve.P256.order) (hpoint : key.publicKey? = some point)
    (hread : Curve.P256.Affine.decode? point.encode = some point) :
    ∃ contents, key.document? = some (Pem.Block.mk "PRIVATE KEY" contents).encode ∧
      Ecdsa.PrivateKey.parse (Pem.Block.mk "PRIVATE KEY" contents).encode = .ok key ∧
        (assembled .ecdsa .ecdsa (Ecdsa.PublicKey.document point)
          (Pem.Block.mk "PRIVATE KEY" contents).encode).Corresponds := by
  obtain ⟨contents, hdocument, hprivate⟩ := Ecdsa.PrivateKey.exists_document hlow hhigh hpoint
  have hpublic : Ecdsa.PublicKey.parse (Ecdsa.PublicKey.document point) = .ok point := by
    rw [Ecdsa.PublicKey.parse_document_eq, hread]
    rfl
  exact ⟨contents, hdocument, hprivate, .ecdsa key point rfl hprivate hpublic hpoint⟩

/-- On the two curves, the public key accepts the point and the number, or the two numbers, that the private
key makes of some data, for the keys that the halves hold. -/
def CurveAccepts (k : KeyPair) (data : Bytes) : Prop :=
  match k.keytype with
  | .rsa => True
  | .ed25519 => ∀ seed, Ed25519.bytesOf .privateHalf k.keyval.privateHalf = .ok seed →
      Ed25519.accepts (Ed25519.publicKey seed) data (Ed25519.signature seed data) = true
  | .ecdsa => ∀ key publicKey g, Ecdsa.PrivateKey.parse k.keyval.privateHalf = .ok key →
      key.publicKey? = some publicKey → Ecdsa.signature? key data = some g →
        Ecdsa.accepts publicKey data g = true

theorem sign_eq_ok :
    k.sign salt data = .ok sig ↔
      k.hasPrivate = true ∧ ∃ b, k.signBytes salt data = .ok b ∧ sig = ⟨k.keyid, Hex.encode b⟩ := by
  unfold sign
  split_ifs with hpublic
  · rw [Bool.not_eq_true'] at hpublic
    simp only [hpublic, Bool.false_eq_true, false_and, iff_false]
    exact nofun
  · simp only [Bool.not_eq_true', Bool.not_eq_false] at hpublic
    rw [Outcome.bind_eq_ok]
    simp only [hpublic, true_and]
    exact exists_congr fun b => and_congr_right fun _ =>
      ⟨fun h => (Except.ok.inj h).symm, fun h => h ▸ rfl⟩

/-- Verification looks at the public half, and at how it is to be used. -/
theorem verify_congr {k' : KeyPair} (hkeytype : k'.keytype = k.keytype) (hscheme : k'.scheme = k.scheme)
    (hpublic : k'.keyval.publicHalf = k.keyval.publicHalf) : k'.verify data sig = k.verify data sig := by
  unfold verify
  rw [hkeytype, hscheme, hpublic]

/-- The public key that belongs to a private key verifies what that has signed. -/
theorem verify_of_signBytes {b : Bytes} (hhalves : k.Corresponds) (hcurve : k.CurveAccepts data)
    (hsalt : k.scheme = .rsaPss → salt.length = Rsa.digestSize) (h : k.signBytes salt data = .ok b)
    (keyid : String) : k.verify data ⟨keyid, Hex.encode b⟩ = .ok true := by
  unfold signBytes at h
  unfold verify
  rw [Hex.decode_encode]
  cases hhalves with
  | rsa key hkind hprivate hpublic =>
    have hsound := Rsa.PrivateKey.isSound_of_parse hprivate
    simp only [hkind, hprivate, Outcome.ok_bind] at h
    split at h
    next hscheme =>
      have hverify := Rsa.Pss.verify_of_sign? hsound (hsalt hscheme) (Outcome.ofOption_eq_ok.mp h)
      simp only [hkind, hpublic, Except.mapError, Outcome.ok_bind, hverify]
      rfl
    next hscheme =>
      have hverify := Rsa.Pkcs1.verify_of_sign? hsound (Outcome.ofOption_eq_ok.mp h)
      simp only [hkind, hpublic, Except.mapError, Outcome.ok_bind, hverify]
      rfl
    next => cases h
  | ed25519 seed hkind hprivate hpublic =>
    simp only [CurveAccepts, hkind] at hcurve
    simp only [hkind, hprivate, Outcome.ok_bind, pure, Except.pure, Except.ok.injEq] at h
    subst h
    have hverify := (Ed25519.verify_sign seed (Ed25519.publicKey seed) data).trans (hcurve seed hprivate)
    simp only [hkind, hpublic, Except.mapError, Outcome.ok_bind, hverify]
    rfl
  | ecdsa key publicKey hkind hprivate hpublic hbelongs =>
    simp only [CurveAccepts, hkind] at hcurve
    rw [hkind] at h
    obtain ⟨key', hkey, h⟩ := Outcome.bind_eq_ok.mp h
    obtain rfl := Except.ok.inj (hprivate.symm.trans hkey)
    obtain ⟨g, hsignature, rfl⟩ := Option.map_eq_some_iff.mp (Outcome.ofOption_eq_ok.mp h)
    have hverify := (Ecdsa.verify_encode hsignature publicKey data).trans
      (hcurve key publicKey g hprivate hbelongs hsignature)
    simp only [hkind, hpublic, Except.mapError, Outcome.ok_bind, hverify]
    rfl

/-- A signature by a valid key carries the identifier of the key, and it is one under the public half, as the
key holds it and as its metadata brings it along. -/
theorem verify_of_sign (hvalid : k.validate = .ok ()) (hcurve : k.CurveAccepts data)
    (hsalt : k.scheme = .rsaPss → salt.length = Rsa.digestSize) (hsign : k.sign salt data = .ok sig) :
    sig.keyid = k.keyid ∧ k.publicOnly.verify data sig = .ok true ∧
      ∃ k', ofMetadata k.metadata k.keytype = .ok k' ∧ k'.verify data sig = .ok true := by
  obtain ⟨hprivate, b, hbytes, rfl⟩ := sign_eq_ok.mp hsign
  have hverify := verify_of_signBytes (corresponds_of_validate hvalid hprivate) hcurve hsalt hbytes k.keyid
  refine ⟨rfl, ?_, _, Custodian.ofMetadata_eq_ok (m := k.metadata) (validate_assembled hvalid), ?_⟩
  · exact (verify_congr rfl rfl rfl).trans hverify
  · exact (verify_congr rfl rfl rfl).trans hverify

theorem curveAccepts_specimen : specimen.CurveAccepts [1, 2, 3] := by
  obtain ⟨hread, haccepts⟩ :
      (Ed25519.bytesOf .privateHalf specimen.keyval.privateHalf).toOption = some (List.replicate 32 7) ∧
        Ed25519.accepts (Ed25519.publicKey (List.replicate 32 7)) [1, 2, 3]
          (Ed25519.signature (List.replicate 32 7) [1, 2, 3]) = true := by
    decide +kernel
  intro seed hseed
  rw [hseed] at hread
  obtain rfl := Option.some.inj hread
  exact haccepts

/-- An RSA key that is large enough to sign with a salt, of the smallest exponent there is. -/
def signingRsa : Rsa.PrivateKey :=
  let p := Nat.pow 2 261 + 105
  let q := Nat.pow 2 263 + 9
  ⟨⟨p * q, 3⟩, (2 * (p - 1) * (q - 1) + 1) / 3, p, q⟩

theorem curveAccepts_ecdsa {key : Ecdsa.PrivateKey} {publicKey : Ecdsa.PublicKey} (hkind : k.keytype = .ecdsa)
    (hprivate : Ecdsa.PrivateKey.parse k.keyval.privateHalf = .ok key) (hbelongs : key.publicKey? = some publicKey)
    (haccepts : (Ecdsa.signature? key data).all (Ecdsa.accepts publicKey data) = true) :
    k.CurveAccepts data := by
  simp only [CurveAccepts, hkind]
  intro key' publicKey' g hkey hpublic hsignature
  obtain rfl := Except.ok.inj (hprivate.symm.trans hkey)
  obtain rfl := Option.some.inj (hbelongs.symm.trans hpublic)
  rw [hsignature, Option.all_some] at haccepts
  exact haccepts

theorem verify_of_sign_specimen :
    (∃ sig, specimen.sign [] [1, 2, 3] = .ok sig ∧ sig.keyid = specimen.keyid ∧
        specimen.publicOnly.verify [1, 2, 3] sig = .ok true ∧
          ∃ k', ofMetadata specimen.metadata .ed25519 = .ok k' ∧ k'.verify [1, 2, 3] sig = .ok true) ∧
      (∃ (k : KeyPair) (sig : Signature), k.keytype = .ecdsa ∧ k.sign [] [1, 2, 3] = .ok sig ∧
        sig.keyid = k.keyid ∧ k.publicOnly.verify [1, 2, 3] sig = .ok true ∧
          ∃ k', ofMetadata k.metadata .ecdsa = .ok k' ∧ k'.verify [1, 2, 3] sig = .ok true) ∧
      ∃ k sig, Rsa.readPrivate (signingRsa.document?.getD "") "" .rsaPss = .ok k ∧
        k.sign (List.replicate 32 7) [1, 2, 3] = .ok sig ∧ sig.keyid = k.keyid ∧
          k.publicOnly.verify [1, 2, 3] sig = .ok true ∧
            ∃ k', ofMetadata k.metadata .rsa = .ok k' ∧ k'.verify [1, 2, 3] sig = .ok true := by
  refine ⟨?ed25519, ?ecdsa, ?rsa⟩
  case ed25519 =>
    have hsigned : (specimen.signBytes [] [1, 2, 3]).toOption.isSome = true := by decide +kernel
    obtain ⟨b, hb⟩ := Outcome.exists_ok hsigned
    have hsign := sign_eq_ok.mpr ⟨by decide, b, hb, rfl⟩
    exact ⟨_, hsign, verify_of_sign validate_specimen curveAccepts_specimen (by decide) hsign⟩
  case ecdsa =>
    obtain ⟨hlow, hhigh, hsigned, haccepts⟩ : 0 < (Ecdsa.PrivateKey.mk 1).scalar ∧
        (Ecdsa.PrivateKey.mk 1).scalar < Curve.P256.order ∧
        (Ecdsa.sign? ⟨1⟩ [1, 2, 3]).isSome = true ∧
        (Ecdsa.signature? ⟨1⟩ [1, 2, 3]).all (Ecdsa.accepts Curve.P256.base [1, 2, 3]) = true := by
      decide +kernel
    have hpoint := Ecdsa.PrivateKey.publicKey?_one
    have hread := Curve.P256.Affine.decode?_encode_base
    generalize Ecdsa.PrivateKey.mk 1 = key at *
    generalize Curve.P256.base = point at *
    obtain ⟨b, hb⟩ := Option.isSome_iff_exists.mp hsigned
    obtain ⟨contents, -, hprivate, hhalves⟩ := exists_corresponds_ecdsa hlow hhigh hpoint hread
    have hvalid := validate_eq_ok.mpr ⟨rfl, validateHalves_of_corresponds hhalves⟩
    have hsign : (assembled .ecdsa .ecdsa (Ecdsa.PublicKey.document point)
        (Pem.Block.mk "PRIVATE KEY" contents).encode).sign [] [1, 2, 3] = .ok _ :=
      sign_eq_ok.mpr ⟨bne_iff_ne.mpr Pem.Block.encode_ne_empty, b,
        Outcome.bind_eq_ok.mpr ⟨_, hprivate, Outcome.ofOption_eq_ok.mpr hb⟩, rfl⟩
    exact ⟨_, _, rfl, hsign, verify_of_sign hvalid (curveAccepts_ecdsa rfl hprivate hpoint haccepts)
      (fun hpss => by cases hpss) hsign⟩
  case rsa =>
    obtain ⟨hsound, hsome, hbytes⟩ : signingRsa.isSound = true ∧ signingRsa.document?.isSome = true ∧
        (Rsa.Pss.sign? signingRsa [1, 2, 3] (List.replicate 32 7)).isSome = true := by
      decide +kernel
    obtain ⟨document, hdocument⟩ := Option.isSome_iff_exists.mp hsome
    obtain ⟨b, hb⟩ := Option.isSome_iff_exists.mp hbytes
    rw [hdocument, Option.getD_some]
    generalize signingRsa = key at hsound hdocument hb
    have hprivate := Rsa.PrivateKey.parse_document hsound hdocument
    have hread : Rsa.readPrivate document "" .rsaPss = .ok _ := Rsa.readPrivate_eq_ok.mpr
      ⟨_, Rsa.PrivateKey.unlock_document hsound hdocument, document, hdocument, rfl, rfl⟩
    have hvalid := (Rsa.readPrivate_sound .default hread).valid
    have hsign : (assembled .rsa .rsaPss key.publicKey.document document).sign (List.replicate 32 7)
        [1, 2, 3] = .ok _ :=
      sign_eq_ok.mpr ⟨bne_iff_ne.mpr (Rsa.PrivateKey.document_ne_empty hdocument), b,
        Outcome.bind_eq_ok.mpr ⟨_, hprivate, Outcome.ofOption_eq_ok.mpr hb⟩, rfl⟩
    exact ⟨_, _, hread, hsign, verify_of_sign hvalid trivial (fun _ => rfl) hsign⟩

end KeyPair

end KeyCustody
