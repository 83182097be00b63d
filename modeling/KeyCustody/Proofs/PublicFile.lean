import KeyCustody.Proofs.PublicBlock
import KeyCustody.Proofs.Stored
/-! # The file of an RSA public half

An RSA key brings its public half along as a text, and that text is what is written, with whatever stands in
it around the block of the public key. -/

namespace KeyCustody.Custodian

open Rsa

variable {c : Custodian} {k : KeyPair} {path written : Path} {password : String} {w w' : World}

/-- The public half of a valid RSA key is a text in which a public key is found. -/
theorem publicHalf_of_validate (hkind : k.keytype = .rsa) (hvalid : k.validate = .ok ()) :
    ∃ key, Rsa.PublicKey.parse k.keyval.publicHalf = .ok key := by
  obtain ⟨-, hhalves⟩ := KeyPair.validate_eq_ok.mp hvalid
  unfold KeyPair.validateHalves at hhalves
  rw [hkind] at hhalves
  obtain ⟨key, hkey, -⟩ := Outcome.bind_eq_ok.mp hhalves
  exact ⟨key, hkey⟩

/-- What is written next to an RSA key holds the mark of a private key exactly if that stands before or after
the block of the public key in its public half. The document of a public key alone holds none. -/
theorem write_rsa_public (hkind : k.keytype = .rsa) (hvalid : k.validate = .ok ())
    (hwrite : (c.write k (some path) (some password)).runIn w = (.ok written, w')) :
    w'.tree.read w'.here path.publicKey = .ok (Text.utf8 k.keyval.publicHalf) ∧
      (∃ before body after, Pem.IsBody body ∧
        k.keyval.publicHalf.toList = before ++ (beginPublic ++ (body ++ endPublic)) ++ after ∧
        (HoldsPrivate k.keyval.publicHalf.toList ↔
          HoldsPrivate (before ++ Pem.dashes) ∨ HoldsPrivate (Pem.dashes ++ after))) ∧
      ∃ key, Rsa.PublicKey.parse k.keyval.publicHalf = .ok key ∧
        (k.keyval.publicHalf = key.document → ¬ HoldsPrivate k.keyval.publicHalf.toList) := by
  obtain ⟨-, -, payload, w₁, g, -, hstored⟩ := stored_of_write hwrite
  have hpayload := publicPayload_rsa hkind
  obtain ⟨key, hkey⟩ := publicHalf_of_validate hkind hvalid
  obtain ⟨before, body, after, hbody, htext⟩ := PublicKey.exists_body hkey
  refine ⟨hpayload ▸ hstored.publicHalf.read, ⟨before, body, after, hbody, htext, ?_⟩, key, hkey, ?_⟩
  · rw [htext]
    exact holdsPrivate_around hbody
  · intro hdocument
    rw [hdocument]
    exact key.not_holdsPrivate_document

def toyWith (publicHalf : String) : KeyPair :=
  .assembled .rsa .rsaPss publicHalf (toyRsa.document?.getD "")

def toyPublic : String := toyRsa.publicKey.document

theorem validate_toyWith {publicHalf : String}
    (hparse : Rsa.PublicKey.parse publicHalf = .ok toyRsa.publicKey) :
    (toyWith publicHalf).validate = .ok () := by
  have hsome : toyRsa.document?.isSome = true := by decide
  obtain ⟨document, hdocument⟩ := Option.isSome_iff_exists.mp hsome
  have hprivate := Rsa.PrivateKey.parse_document (by decide) hdocument
  have hhalf : (toyWith publicHalf).keyval = ⟨publicHalf, document⟩ := by
    rw [toyWith, hdocument]
    rfl
  refine KeyPair.validate_eq_ok.mpr ⟨rfl, ?_⟩
  have hkind : (toyWith publicHalf).keytype = .rsa := rfl
  unfold KeyPair.validateHalves
  rw [hkind, hhalf]
  simp only [hparse, hprivate, Outcome.ok_bind, BEq.rfl]
  split_ifs <;> rfl

theorem hasPrivate_toyWith (publicHalf : String) : (toyWith publicHalf).hasPrivate = true := by
  have hsome : toyRsa.document?.isSome = true := by decide
  obtain ⟨document, hdocument⟩ := Option.isSome_iff_exists.mp hsome
  have hhalf : (toyWith publicHalf).keyval.privateHalf = document := by
    rw [toyWith, hdocument]
    rfl
  rw [KeyPair.hasPrivate, hhalf]
  exact bne_iff_ne.mpr (PrivateKey.document_ne_empty hdocument)

theorem validate_toyWith_toyPublic : (toyWith toyPublic).validate = .ok () :=
  validate_toyWith (PublicKey.parse_document (by decide))

theorem write_rsa_public_toy :
    ∃ written w', (default.write (toyWith toyPublic) (some ⟨"k"⟩) (some "")).runIn
        (World.start [] [] fun _ => 0) = (.ok written, w') ∧
      w'.tree.read w'.here ⟨"k.pub"⟩ = .ok (Text.utf8 toyPublic) ∧ ¬ HoldsPrivate toyPublic.toList := by
  have hrun : ((default.write (toyWith toyPublic) (some ⟨"k"⟩) (some "")).runIn
      (World.start [] [] fun _ => 0)).1.toOption.isSome = true := by
    decide +kernel
  have hparse : Rsa.PublicKey.parse toyPublic = .ok toyRsa.publicKey :=
    Rsa.PublicKey.parse_document (by decide)
  obtain ⟨written, w', hwrite⟩ := Action.runIn_eq_ok hrun
  obtain ⟨hread, -, key, hkey, hclean⟩ := write_rsa_public rfl (validate_toyWith hparse) hwrite
  have hhalf : (toyWith toyPublic).keyval.publicHalf = toyPublic := rfl
  rw [hhalf, hparse] at hkey
  cases hkey
  exact ⟨written, w', hwrite, hread, hclean rfl⟩

def leaky : String := "" ++ toyRsa.publicKey.document ++ toyRsa.document?.getD ""

/-- A valid RSA key can bring the mark of a private key along in its public half. -/
theorem write_rsa_public_leaky :
    ¬ ∀ (c : Custodian) (k : KeyPair) (path written : Path) (password : String) (w w' : World),
      k.keytype = .rsa → k.validate = .ok () → k.keyval.privateHalf ≠ "" →
        (c.write k (some path) (some password)).runIn w = (.ok written, w') →
          ∀ text, w'.tree.read w'.here path.publicKey = .ok (Text.utf8 text) →
            ¬ HoldsPrivate text.toList := by
  intro hall
  have hrun : ((default.write (toyWith leaky) (some ⟨"k"⟩) (some "")).runIn
      (World.start [] [] fun _ => 0)).1.toOption.isSome = true := by
    decide +kernel
  have hparse : Rsa.PublicKey.parse leaky = .ok toyRsa.publicKey :=
    Rsa.PublicKey.parse_among (by decide) (by decide) _
  have hholds : HoldsPrivate leaky.toList := by decide +kernel
  obtain ⟨written, w', hwrite⟩ := Action.runIn_eq_ok hrun
  obtain ⟨-, -, payload, w₁, g, -, hstored⟩ := stored_of_write hwrite
  have hread : w'.tree.read w'.here (Path.publicKey ⟨"k"⟩) = .ok (Text.utf8 leaky) :=
    hstored.publicHalf.read
  exact hall _ _ _ _ _ _ _ rfl (validate_toyWith hparse) (by decide +kernel) hwrite _ hread hholds

end KeyCustody.Custodian
