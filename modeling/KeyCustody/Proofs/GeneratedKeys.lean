import KeyCustody.Generation
import KeyCustody.Proofs.Marks
import KeyCustody.Proofs.PublishedHalf
import KeyCustody.Proofs.Signing
/-! # New keys are in order

A new key has to pass what is checked of keys that are read: its halves are valid and belong together, its
identifier is the one of its public data, its metadata describes its public half, and its document is not
mistaken for an encrypted one. That the public key of a curve can be read is what the curve is for; the rest
follows from the encodings. Numbers for ECDSA keys are drawn until one is in bounds, so a key is made of every
stream of random bytes in which one ever is. -/

namespace KeyCustody

open Curve

variable {half : Half} {b seed : Bytes} {key : Ecdsa.PrivateKey} {point : Ecdsa.PublicKey}

/-! ## Documents without marks -/

theorem Envelope.marks_of_notMem {s : String} (h : '@' ∉ s.toList) : marks s = 0 := by
  have hmarks := marksAfter_append h []
  rwa [List.append_nil] at hmarks

theorem Hex.notMem_encode (b : Bytes) : '@' ∉ (encode b).toList := by
  rw [encode, String.toList_ofList]
  exact Envelope.notMem_encodeChars b

theorem Pem.Block.notMem_encode {block : Block} (hlabel : '@' ∉ block.label.toList) :
    '@' ∉ block.encode.toList := by
  have hdigits : ∀ n < 64, '@' ≠ Base64.digit n := by decide
  have hlines : '@' ∉ wrap (Base64.encode block.contents) := by
    intro h
    rcases mem_wrapUpTo h with h | h
    · obtain h | ⟨n, hn, h⟩ := Base64.mem_encode h
      · cases h
      · exact hdigits n hn h
    · cases h
  have hbegin : '@' ∉ beginMark := by decide
  have hend : '@' ∉ endMark := by decide
  have hdashes : '@' ∉ dashes := by decide
  rw [encode, String.toList_ofList]
  simp [encodeChars, hbegin, hend, hdashes, hlabel, hlines]

/-! ## Well-made keys -/

/-- A sound key with its private half, whose metadata is read as its public half and whose document does not
look like an envelope. -/
structure KeyPair.WellMade (expected : KeyType) (k : KeyPair) : Prop extends k.Sound expected where
  hasPrivate : k.hasPrivate = true
  published : (Metadata.parse (Text.utf8 k.metadata.document) >>= fun m => ofMetadata m k.keytype) =
    .ok k.publicOnly
  unmistaken : Envelope.looksLike k.document = false

/-- A key that is put together is well made if its halves belong together, both are there, and neither has a
character of a mark. -/
theorem KeyPair.wellMade_assembled {expected : KeyType} {scheme : Scheme} {publicHalf privateHalf : String}
    (hscheme : scheme.keytype = expected)
    (hhalves : (assembled expected scheme publicHalf privateHalf).Corresponds) (hprivate : privateHalf ≠ "")
    (hpublicMarks : '@' ∉ publicHalf.toList) (hprivateMarks : '@' ∉ privateHalf.toList) :
    (assembled expected scheme publicHalf privateHalf).WellMade expected := by
  have hsound := sound_assembled hscheme (validateHalves_of_corresponds hhalves)
  refine ⟨hsound, bne_iff_ne.mpr hprivate, ?_, ?_⟩
  · rw [Metadata.parse_document, Outcome.ok_bind]
    exact ofMetadata_metadata hsound
  · have hmarks : (assembled expected scheme publicHalf privateHalf).marks = 0 := by
      simp only [marks, assembled, computeKeyid, Envelope.marks_of_notMem (Hex.notMem_encode _),
        Envelope.marks_of_notMem hpublicMarks, Envelope.marks_of_notMem hprivateMarks]
    rw [← Bool.not_eq_true, looksLike_document, hmarks]
    decide

/-! ## Ed25519 keys -/

namespace Ed25519

theorem length_publicKey (seed : Bytes) : (publicKey seed).length = 32 := by
  rw [publicKey, Edwards25519.Point.encode, List.length_reverse, Bytes.length_ofNat]

theorem bytesOf_encode (h : b.length = 32) : bytesOf half (Hex.encode b) = .ok b := by
  rw [bytesOf, Hex.decode_encode]
  exact if_pos h

theorem encode_ne_empty (h : b.length = 32) : Hex.encode b ≠ "" := by
  intro hempty
  have hdecode := Hex.decode_encode b
  rw [hempty] at hdecode
  cases hdecode
  cases h

theorem exists_keyPair (hseed : seed.length = 32)
    (hpoint : (Edwards25519.Point.decode? (publicKey seed)).isSome = true) :
    ∃ k, keyPair seed = .ok k ∧ k.WellMade .ed25519 := by
  have hpublic : publicBytes (Hex.encode (publicKey seed)) = .ok (publicKey seed) := by
    rw [publicBytes, bytesOf_encode (length_publicKey seed), Outcome.ok_bind,
      Outcome.require_eq_ok.mpr hpoint, Outcome.ok_bind]
    rfl
  have hhalves : (KeyPair.assembled .ed25519 .ed25519 (Hex.encode (publicKey seed))
      (Hex.encode seed)).Corresponds := .ed25519 seed rfl (bytesOf_encode hseed) hpublic
  exact ⟨_, KeyPair.make_eq_ok.mpr ⟨rfl, rfl⟩, KeyPair.wellMade_assembled rfl hhalves
    (encode_ne_empty hseed) (Hex.notMem_encode _) (Hex.notMem_encode _)⟩

end Ed25519

/-! ## ECDSA keys -/

namespace Ecdsa

theorem keyPair_eq_ok {k : KeyPair} :
    keyPair key = .ok k ↔ ∃ point document, key.publicKey? = some point ∧ key.document? = some document ∧
      k = KeyPair.assembled .ecdsa .ecdsa (PublicKey.document point) document := by
  have hscheme : Scheme.ecdsa.keytype = .ecdsa := rfl
  simp only [keyPair, Outcome.bind_eq_ok, Outcome.ofOption_eq_ok, KeyPair.make_eq_ok, hscheme, true_and,
    exists_and_left]

theorem exists_keyPair (hlow : 0 < key.scalar) (hhigh : key.scalar < P256.order)
    (hpoint : key.publicKey? = some point) (hread : P256.Affine.decode? point.encode = some point) :
    ∃ k, keyPair key = .ok k ∧ k.WellMade .ecdsa := by
  obtain ⟨contents, hdocument, -, hhalves⟩ := KeyPair.exists_corresponds_ecdsa hlow hhigh hpoint hread
  have hpublicMarks : '@' ∉ (PublicKey.document point).toList :=
    Pem.Block.notMem_encode (show '@' ∉ "PUBLIC KEY".toList by decide)
  have hprivateMarks : '@' ∉ (Pem.Block.mk "PRIVATE KEY" contents).encode.toList :=
    Pem.Block.notMem_encode (show '@' ∉ "PRIVATE KEY".toList by decide)
  exact ⟨_, keyPair_eq_ok.mpr ⟨point, _, hpoint, hdocument, rfl⟩,
    KeyPair.wellMade_assembled rfl hhalves Pem.Block.encode_ne_empty hpublicMarks hprivateMarks⟩

end Ecdsa

namespace Generation

variable {w : World} {n draws : Nat}

/-- The world after `n` numbers of thirty-two bytes have been drawn. -/
def afterCandidates (w : World) (n : Nat) : World := { w with drawn := w.drawn + 32 * n }

def candidateAt (w : World) (n : Nat) : Nat := Bytes.toNat ((afterCandidates w n).draw 32)

def ecdsaWithin (draws : Nat) : Action KeyPair := do
  Action.ofOutcome (Ecdsa.keyPair (← ecdsaKey draws))

theorem ecdsa_eq : ecdsa = ecdsaWithin 4096 := rfl

theorem afterCandidates_succ (w : World) (n : Nat) :
    afterCandidates (afterCandidates w 1) n = afterCandidates w (n + 1) := by
  have hdrawn : w.drawn + 32 * 1 + 32 * n = w.drawn + 32 * (n + 1) := by omega
  simp only [afterCandidates, hdrawn]

theorem candidateAt_succ (w : World) (n : Nat) :
    candidateAt (afterCandidates w 1) n = candidateAt w (n + 1) := by
  rw [candidateAt, afterCandidates_succ, candidateAt]

theorem ecdsaKey_succ (draws : Nat) (w : World) :
    (ecdsaKey (draws + 1)).runIn w =
      match Ecdsa.PrivateKey.ofNat? (candidateAt w 0) with
      | some key => (.ok key, afterCandidates w 1)
      | none => (ecdsaKey draws).runIn (afterCandidates w 1) := by
  have hfirst : candidateAt w 0 = Bytes.toNat (w.draw 32) := rfl
  rw [ecdsaKey, Action.runIn_bind, Action.runIn_random, Action.andThen_ok, hfirst]
  cases Ecdsa.PrivateKey.ofNat? (Bytes.toNat (w.draw 32)) <;> rfl

/-- The first number in bounds is the key, however many more might have been drawn. -/
theorem ecdsaKey_first (hpassed : ∀ i < n, Ecdsa.PrivateKey.ofNat? (candidateAt w i) = none)
    (hkey : Ecdsa.PrivateKey.ofNat? (candidateAt w n) = some key) (hdraws : n < draws) :
    (ecdsaKey draws).runIn w = (.ok key, afterCandidates w (n + 1)) := by
  induction n generalizing w draws with
  | zero =>
    obtain ⟨draws, rfl⟩ := Nat.exists_eq_add_one.mpr hdraws
    rw [ecdsaKey_succ, hkey]
  | succ n ih =>
    obtain ⟨draws, rfl⟩ := Nat.exists_eq_add_one.mpr (Nat.zero_lt_of_lt hdraws)
    rw [ecdsaKey_succ, hpassed 0 (Nat.succ_pos n)]
    have hlater : ∀ i < n, Ecdsa.PrivateKey.ofNat? (candidateAt (afterCandidates w 1) i) = none := by
      intro i hi
      rw [candidateAt_succ]
      exact hpassed (i + 1) (Nat.succ_lt_succ hi)
    rw [← candidateAt_succ] at hkey
    have hrun := ih hlater hkey (Nat.lt_of_succ_lt_succ hdraws)
    rwa [afterCandidates_succ] at hrun

theorem bounds_of_ofNat? (h : Ecdsa.PrivateKey.ofNat? n = some key) :
    0 < key.scalar ∧ key.scalar < P256.order := by
  unfold Ecdsa.PrivateKey.ofNat? at h
  split_ifs at h with hbounds
  cases h
  exact hbounds

/-- Every seed makes a well-made Ed25519 key. Every stream of random bytes makes a well-made ECDSA key, of the
first number in it that is in bounds, as soon as enough numbers may be drawn to get there. -/
theorem wellMade_generated :
    (∀ seed, seed.length = 32 →
      (Edwards25519.Point.decode? (Ed25519.publicKey seed)).isSome = true →
        ∃ k, Ed25519.keyPair seed = .ok k ∧ k.WellMade .ed25519) ∧
      ∀ w n key, (∀ i < n, Ecdsa.PrivateKey.ofNat? (candidateAt w i) = none) →
        Ecdsa.PrivateKey.ofNat? (candidateAt w n) = some key →
        (∃ point, key.publicKey? = some point ∧ P256.Affine.decode? point.encode = some point) →
          ∃ k, k.WellMade .ecdsa ∧
            ∀ draws, n < draws → (ecdsaWithin draws).runIn w = (.ok k, afterCandidates w (n + 1)) := by
  refine ⟨fun seed hseed hpoint => Ed25519.exists_keyPair hseed hpoint, ?_⟩
  rintro w n key hpassed hkey ⟨point, hpoint, hread⟩
  obtain ⟨hlow, hhigh⟩ := bounds_of_ofNat? hkey
  obtain ⟨k, hpair, hmade⟩ := Ecdsa.exists_keyPair hlow hhigh hpoint hread
  refine ⟨k, hmade, fun draws hdraws => ?_⟩
  rw [ecdsaWithin, Action.runIn_bind, ecdsaKey_first hpassed hkey hdraws, Action.andThen_ok,
    Action.runIn_ofOutcome, hpair]

/-- A stream whose first number is out of bounds and whose second one is 1. -/
def skipping : World :=
  World.start [] [] fun i => if i < 32 then 0xFF else if i = 63 then 1 else 0

theorem wellMade_generated_skipping :
    (∃ k, Ed25519.keyPair (List.replicate 32 7) = .ok k ∧ k.WellMade .ed25519) ∧
      ∃ k w', ecdsa.runIn skipping = (.ok k, w') ∧ k.WellMade .ecdsa := by
  have hseed : (Edwards25519.Point.decode? (Ed25519.publicKey (List.replicate 32 7))).isSome = true := by
    decide +kernel
  have hpassed : ∀ i < 1, Ecdsa.PrivateKey.ofNat? (candidateAt skipping i) = none := by decide +kernel
  have hkey : Ecdsa.PrivateKey.ofNat? (candidateAt skipping 1) = some ⟨1⟩ := by decide +kernel
  obtain ⟨k, hmade, hrun⟩ := wellMade_generated.2 skipping 1 ⟨1⟩ hpassed hkey
    ⟨_, Ecdsa.PrivateKey.publicKey?_one, P256.Affine.decode?_encode_base⟩
  exact ⟨wellMade_generated.1 _ rfl hseed, k, _, ecdsa_eq ▸ hrun 4096 (by decide), hmade⟩

end Generation

end KeyCustody
