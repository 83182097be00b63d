import KeyCustody.Proofs.DocumentNames
import KeyCustody.Proofs.ImportSoundness
import KeyCustody.Proofs.KeyidDocument
import KeyCustody.Proofs.Reading
/-! # Keys and their spellings

The half of a public key that is read from a file is written anew if it is an RSA key, and otherwise it is
kept as it stands in the file: with hexadecimal digits of either case, or as a PEM document with its own
line ends and whatever comes before it. Identifiers are digests of that half. -/

namespace KeyCustody

open Json

variable {keytype expected : KeyType} {scheme scheme' : Scheme} {half half' text text' : String}
  {k k' : KeyPair}

/-! ## Identifiers -/

/-- A digit stands for the same as its capital. -/
theorem Hex.decode_capital (s : String) : Hex.decode ("E" ++ s) = Hex.decode ("e" ++ s) := by
  simp only [Hex.decode, Text.utf8_append]
  change Hex.decodeBytes (0x45 :: Text.utf8 s) = Hex.decodeBytes (0x65 :: Text.utf8 s)
  cases Text.utf8 s <;> rfl

/-- Different bytes with the same digest. -/
def Collide (a b : Bytes) : Prop :=
  a ≠ b ∧ HashAlgorithm.sha256.digest a = HashAlgorithm.sha256.digest b

theorem computeKeyid_eq_iff :
    computeKeyid keytype scheme half .sha256 = computeKeyid keytype scheme half' .sha256 ↔
      half = half' ∨ Collide (keyidBytes keytype scheme half) (keyidBytes keytype scheme half') := by
  rw [computeKeyid_eq_computeKeyid]
  simp only [true_and, Collide]

/-! ## Keys in files -/

/-- What the half of a public key stands for. -/
inductive PublicMaterial where
  | rsa (key : Rsa.PublicKey)
  /-- The bytes of a point. -/
  | ed25519 (bytes : Bytes)
  | ecdsa (key : Ecdsa.PublicKey)
deriving DecidableEq

/-- The public half in a text, as it stands there: an RSA key may be anywhere in the text. -/
def heldHalf (expected : KeyType) (text : String) : Outcome String :=
  match expected with
  | .rsa => .ok text
  | _ => do return (← Metadata.parse (Text.utf8 text)).publicHalf

/-- The public key that a half stands for. -/
def materialOf (keytype : KeyType) (half : String) : Outcome PublicMaterial :=
  match keytype with
  | .rsa => do return .rsa (← Rsa.PublicKey.parse half)
  | .ed25519 => do return .ed25519 (← Ed25519.publicBytes half)
  | .ecdsa => do return .ecdsa (← Ecdsa.PublicKey.parse half)

/-- The public key in a text. -/
def heldMaterial (expected : KeyType) (text : String) : Outcome PublicMaterial := do
  materialOf expected (← heldHalf expected text)

theorem KeyPair.half_of_ofMetadata {m : Metadata} (h : ofMetadata m expected = .ok k) :
    k.keyval.publicHalf = m.publicHalf := by
  unfold ofMetadata at h
  split_ifs at h
  · cases h
  · obtain ⟨k', hmake, h⟩ := Outcome.bind_eq_ok.mp h
    obtain ⟨u, -, h⟩ := Outcome.bind_eq_ok.mp h
    cases h
    obtain ⟨-, rfl⟩ := make_eq_ok.mp hmake
    rfl

namespace Custodian

/-- A public key is read from a file that holds some text. -/
inductive ReadsPublic (expected : KeyType) (text : String) (k : KeyPair) : Prop where
  | read {path : Path} {w w' : World} {contents : Bytes} :
      w.tree.read w.here path = .ok contents → Text.ofUtf8? contents = some text →
      (readPublic path expected).runIn w = (.ok k, w') → ReadsPublic expected text k
  | imported {path : Path} {scheme : Scheme} {w w' : World} {contents : Bytes} :
      w.tree.read w.here path = .ok contents → Text.ofUtf8? contents = some text →
      expected = .rsa → (importRsaPublic path scheme).runIn w = (.ok k, w') →
      ReadsPublic expected text k

theorem publicKeyOf_of_load {path : Path} {w w' : World} {contents : Bytes}
    (hcontents : w.tree.read w.here path = .ok contents) (htext : Text.ofUtf8? contents = some text)
    (h : (loadPublic path expected scheme).runIn w = (.ok k, w')) :
    publicKeyOf text expected scheme = .ok k := by
  rw [loadPublic_run hcontents, textOf, htext] at h
  obtain ⟨-, -, h⟩ := Outcome.bind_eq_ok.mp (congrArg Prod.fst h)
  exact h

theorem ReadsPublic.exists_scheme (h : ReadsPublic expected text k) :
    ∃ scheme, publicKeyOf text expected scheme = .ok k := by
  cases h with
  | read hcontents htext hread => exact ⟨_, publicKeyOf_of_load hcontents htext hread⟩
  | imported hcontents htext hkind hread =>
    subst hkind
    exact ⟨_, publicKeyOf_of_load hcontents htext hread⟩

/-- The half of a key that is read: that of an RSA key is written anew, any other one is the half that the
file holds. -/
theorem ReadsPublic.half_eq (h : ReadsPublic expected text k) :
    k.keytype = expected ∧ k.keyid = computeKeyid expected k.scheme k.keyval.publicHalf .sha256 ∧
      ((expected = .rsa ∧ ∃ key, heldMaterial expected text = .ok (.rsa key) ∧
          k.keyval.publicHalf = key.document) ∨
        (expected ≠ .rsa ∧ heldHalf expected text = .ok k.keyval.publicHalf)) := by
  obtain ⟨scheme, h⟩ := h.exists_scheme
  obtain ⟨⟨hkeytype, -, hkeyid, -⟩, -⟩ := publicKeyOf_sound h
  refine ⟨hkeytype, by rw [hkeyid, hkeytype], ?_⟩
  have hmetadata : expected ≠ .rsa → (∃ m, Metadata.parse (Text.utf8 text) = .ok m ∧
      KeyPair.ofMetadata m expected = .ok k) → heldHalf expected text = .ok k.keyval.publicHalf := by
    rintro hkind ⟨m, hm, hk⟩
    rw [KeyPair.half_of_ofMetadata hk]
    cases expected with
    | rsa => exact absurd rfl hkind
    | ed25519 => simp only [heldHalf, hm]; rfl
    | ecdsa => simp only [heldHalf, hm]; rfl
  cases expected with
  | rsa =>
    obtain ⟨u, -, h⟩ := Outcome.bind_eq_ok.mp (ok_of_named h)
    obtain ⟨key, hkey, hmake⟩ := Outcome.bind_eq_ok.mp h
    obtain ⟨-, rfl⟩ := KeyPair.make_eq_ok.mp hmake
    refine .inl ⟨rfl, key, ?_, rfl⟩
    simp only [heldMaterial, heldHalf, materialOf, Outcome.ok_bind, hkey]
    rfl
  | ed25519 =>
    obtain ⟨m, hm, h⟩ := Outcome.bind_eq_ok.mp (ok_of_named h)
    exact .inr ⟨nofun, hmetadata nofun ⟨m, hm, h⟩⟩
  | ecdsa =>
    obtain ⟨m, hm, h⟩ := Outcome.bind_eq_ok.mp (ok_of_named h)
    exact .inr ⟨nofun, hmetadata nofun ⟨m, hm, h⟩⟩

/-- Two public keys that are read from files, where the files hold the same key under the same scheme. RSA
keys get the same half and the same identifier. Other keys get the same half exactly if they are spelled
alike, and then the same identifier, which different spellings only have by a collision of digests. -/
theorem readPublic_spelling {material : PublicMaterial} (h : ReadsPublic expected text k)
    (h' : ReadsPublic expected text' k') (hheld : heldMaterial expected text = .ok material)
    (hheld' : heldMaterial expected text' = .ok material) (hscheme : k.scheme = k'.scheme) :
    (k.keyval.publicHalf = k'.keyval.publicHalf ↔
      expected = .rsa ∨ heldHalf expected text = heldHalf expected text') ∧
    (k.keyid = k'.keyid ↔
      expected = .rsa ∨ heldHalf expected text = heldHalf expected text' ∨
        Collide (keyidBytes expected k.scheme k.keyval.publicHalf)
          (keyidBytes expected k.scheme k'.keyval.publicHalf)) := by
  obtain ⟨-, hkeyid, hhalf⟩ := h.half_eq
  obtain ⟨-, hkeyid', hhalf'⟩ := h'.half_eq
  rw [hkeyid, hkeyid', ← hscheme, computeKeyid_eq_iff]
  obtain ⟨hkind, key, hkey, hpublic⟩ | ⟨hkind, hpublic⟩ := hhalf
  · obtain ⟨-, key', hkey', hpublic'⟩ | ⟨hkind', -⟩ := hhalf'
    · have hsame : k.keyval.publicHalf = k'.keyval.publicHalf := by
        rw [hheld] at hkey
        rw [hheld'] at hkey'
        cases hkey
        cases hkey'
        rw [hpublic, hpublic']
      exact ⟨⟨fun _ => .inl hkind, fun _ => hsame⟩, ⟨fun _ => .inl hkind, fun _ => .inl hsame⟩⟩
    · exact absurd hkind hkind'
  · obtain ⟨hkind', -⟩ | ⟨-, hpublic'⟩ := hhalf'
    · exact absurd hkind' hkind
    · rw [hpublic, hpublic', Except.ok.injEq]
      simp only [hkind, false_or, and_self]

/-! ## Two spellings of a key -/

theorem ReadsPublic.of_publicKeyOf {w : World} {path : Path}
    (hcontents : w.tree.read w.here path = .ok (Text.utf8 text)) (hpath : path.check = .ok ())
    (h : publicKeyOf text expected expected.defaultScheme = .ok k) : ReadsPublic expected text k := by
  have hload : (readPublic path expected).runIn w = (.ok k, w) := by
    rw [readPublic_utf8 hpath hcontents, h]
  exact .read hcontents (Text.ofUtf8?_utf8 text) hload

/-- An RSA key is read wherever its text can be parsed. -/
theorem publicKeyOf_parse {key : Rsa.PublicKey} (hnamed : namedKeyType? text = none)
    (hparse : Rsa.PublicKey.parse text = .ok key) :
    publicKeyOf text .rsa .rsaPss = .ok (.assembled .rsa .rsaPss key.document "") := by
  simp only [publicKeyOf, hnamed, Rsa.readPublic, hparse]
  rfl

theorem ofMetadata_eq_ok {m : Metadata}
    (hvalid : (KeyPair.assembled m.keytype m.scheme m.publicHalf "").validate = .ok ()) :
    KeyPair.ofMetadata m m.keytype = .ok (.assembled m.keytype m.scheme m.publicHalf "") := by
  have hmake : KeyPair.make m.keytype m.scheme m.publicHalf "" =
      .ok (.assembled m.keytype m.scheme m.publicHalf "") :=
    KeyPair.make_eq_ok.mpr ⟨KeyPair.scheme_of_validate hvalid, rfl⟩
  simp only [KeyPair.ofMetadata, ne_eq, not_true_eq_false, if_false, hmake, hvalid, Outcome.ok_bind]
  rfl

theorem publicKeyOf_document {m : Metadata} (hkind : m.keytype ≠ .rsa)
    (hvalid : (KeyPair.assembled m.keytype m.scheme m.publicHalf "").validate = .ok ()) :
    publicKeyOf m.document m.keytype scheme =
      .ok (.assembled m.keytype m.scheme m.publicHalf "") := by
  have hread := ofMetadata_eq_ok hvalid
  have hparse := m.parse_document
  have hnamed := m.namedKeyType?_document
  generalize m.document = document at hnamed hparse ⊢
  generalize KeyPair.assembled m.keytype m.scheme m.publicHalf "" = k at hread ⊢
  generalize m.keytype = keytype at hkind hnamed hread ⊢
  cases keytype with
  | rsa => exact absurd rfl hkind
  | ed25519 =>
    simp only [publicKeyOf, hnamed, ne_eq, not_true_eq_false, if_false, hparse, Outcome.ok_bind, hread]
  | ecdsa =>
    simp only [publicKeyOf, hnamed, ne_eq, not_true_eq_false, if_false, hparse, Outcome.ok_bind, hread]

theorem readPublic_document {k : KeyPair} {path : Path} {w : World} (hkind : k.keytype ≠ .rsa)
    (hvalid : k.validate = .ok ()) (hpath : path.check = .ok ())
    (hcontents : w.tree.read w.here path = .ok (Text.utf8 k.metadata.document)) :
    (readPublic path k.keytype).runIn w =
      (.ok (.assembled k.keytype k.scheme k.keyval.publicHalf ""), w) := by
  rw [readPublic_utf8 hpath hcontents]
  exact congrArg (·, w) (publicKeyOf_document (m := k.metadata) hkind (KeyPair.validate_assembled hvalid))

/-- The metadata of a key with a capital digit. -/
def capital : Metadata :=
  { KeyPair.specimen.metadata with
    publicHalf := "E" ++ "a4a6c63e29c520abef5507b132ec5f9954776aebebe7b92421eea691446d22c" }

def annotated : String := "a key\n" ++ toyRsa.publicKey.document ++ "and more\n"

def spelled : World :=
  { World.start [] [] fun _ => 0 with
    tree := ⟨[
      (["r"], .file (Text.utf8 toyRsa.publicKey.document)),
      (["s"], .file (Text.utf8 annotated)),
      (["k"], .file (Text.utf8 KeyPair.specimen.metadata.document)),
      (["l"], .file (Text.utf8 capital.document))]⟩ }

theorem parse_annotated : Rsa.PublicKey.parse annotated = .ok toyRsa.publicKey :=
  Rsa.PublicKey.parse_among (by decide) (by decide) _

theorem readPublic_spelling_annotated :
    ∃ k k', ReadsPublic .rsa toyRsa.publicKey.document k ∧ ReadsPublic .rsa annotated k' ∧
      (k.keyval.publicHalf = k'.keyval.publicHalf ↔
        KeyType.rsa = .rsa ∨ heldHalf .rsa toyRsa.publicKey.document = heldHalf .rsa annotated) ∧
      (k.keyid = k'.keyid ↔
        KeyType.rsa = .rsa ∨ heldHalf .rsa toyRsa.publicKey.document = heldHalf .rsa annotated ∨
          Collide (keyidBytes .rsa k.scheme k.keyval.publicHalf)
            (keyidBytes .rsa k.scheme k'.keyval.publicHalf)) := by
  have hparse : Rsa.PublicKey.parse toyRsa.publicKey.document = .ok toyRsa.publicKey :=
    Rsa.PublicKey.parse_document (by decide)
  have hheld : ∀ text, Rsa.PublicKey.parse text = .ok toyRsa.publicKey →
      heldMaterial .rsa text = .ok (.rsa toyRsa.publicKey) := by
    intro text h
    simp only [heldMaterial, heldHalf, materialOf, Outcome.ok_bind, h]
    rfl
  have h : ReadsPublic .rsa toyRsa.publicKey.document
      (.assembled .rsa .rsaPss toyRsa.publicKey.document "") :=
    .of_publicKeyOf (show spelled.tree.read spelled.here ⟨"r"⟩ = _ from rfl) (by decide)
      (publicKeyOf_parse (namedKeyType?_block _) hparse)
  have hnamed : namedKeyType? annotated = none := by
    apply namedKeyType?_eq_none
    rw [annotated, String.toList_append, String.toList_append]
    exact fun h => absurd (Option.some.inj h) (by decide)
  have h' : ReadsPublic .rsa annotated (.assembled .rsa .rsaPss toyRsa.publicKey.document "") :=
    .of_publicKeyOf (show spelled.tree.read spelled.here ⟨"s"⟩ = _ from rfl) (by decide)
      (publicKeyOf_parse hnamed parse_annotated)
  exact ⟨_, _, h, h', readPublic_spelling h h' (hheld _ hparse) (hheld _ parse_annotated) rfl⟩

theorem readsPublic_digits {half : String} {bytes : Bytes} {w : World} {path : Path}
    (hcontents : w.tree.read w.here path =
      .ok (Text.utf8 (Metadata.mk .ed25519 .ed25519 half).document))
    (hpath : path.check = .ok ()) (hbytes : Ed25519.publicBytes half = .ok bytes) :
    ReadsPublic .ed25519 (Metadata.mk .ed25519 .ed25519 half).document
        (.assembled .ed25519 .ed25519 half "") ∧
      heldMaterial .ed25519 (Metadata.mk .ed25519 .ed25519 half).document = .ok (.ed25519 bytes) := by
  have hvalid : (KeyPair.assembled .ed25519 .ed25519 half "").validate = .ok () := by
    refine KeyPair.validate_eq_ok.mpr ⟨rfl, ?_⟩
    simp only [KeyPair.assembled, KeyPair.validateHalves, hbytes, Outcome.ok_bind]
    rfl
  refine ⟨.of_publicKeyOf hcontents hpath (publicKeyOf_document (by simp) hvalid), ?_⟩
  simp only [heldMaterial, heldHalf, materialOf, Metadata.parse_document, Outcome.ok_bind, pure,
    Except.pure, hbytes]

theorem publicBytes_capital :
    Ed25519.publicBytes capital.publicHalf = Ed25519.publicBytes KeyPair.specimen.keyval.publicHalf := by
  have hhalf : KeyPair.specimen.keyval.publicHalf =
      "e" ++ "a4a6c63e29c520abef5507b132ec5f9954776aebebe7b92421eea691446d22c" := by
    decide
  simp only [capital, Ed25519.publicBytes, Ed25519.bytesOf, Hex.decode_capital, hhalf]

/-- Not every key that is published in two spellings gets one identifier and one half. -/
theorem readPublic_spelling_capital :
    ¬ ∀ (expected : KeyType) (text text' : String) (k k' : KeyPair) (material : PublicMaterial),
      ReadsPublic expected text k → ReadsPublic expected text' k' →
        heldMaterial expected text = .ok material → heldMaterial expected text' = .ok material →
          k.scheme = k'.scheme → k.keyid = k'.keyid ∧ k.keyval.publicHalf = k'.keyval.publicHalf := by
  intro hall
  obtain ⟨-, hhalves⟩ := KeyPair.validate_eq_ok.mp KeyPair.validate_specimen
  obtain ⟨bytes, hbytes, -⟩ := Outcome.bind_eq_ok.mp hhalves
  obtain ⟨h, hheld⟩ := readsPublic_digits (show spelled.tree.read spelled.here ⟨"k"⟩ = _ from rfl)
    (by decide) hbytes
  obtain ⟨h', hheld'⟩ := readsPublic_digits (show spelled.tree.read spelled.here ⟨"l"⟩ = _ from rfl)
    (by decide) (publicBytes_capital.trans hbytes)
  obtain ⟨-, hhalf⟩ := hall _ _ _ _ _ _ h h' hheld hheld' rfl
  exact absurd hhalf (by decide)

end Custodian

end KeyCustody
