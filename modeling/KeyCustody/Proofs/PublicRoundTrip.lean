import KeyCustody.Proofs.KeySpelling
import KeyCustody.Proofs.PublicFile
import KeyCustody.Proofs.RoundTrip
/-! # Public halves there and back

After a key has been written, its public half can be read next to it. A document of metadata is read as what
it was made of. The text of an RSA key is looked at as a JSON document first, which it is not: some line of it
ends in hyphens. So it is read as if it had been taken from the key itself. -/

namespace KeyCustody

/-! ## Texts of RSA keys are no JSON documents -/

theorem namedKeyType?_of_dashedLine {text : String} (h : Text.DashedLine text.toList) :
    namedKeyType? text = none := by
  unfold namedKeyType?
  split_ifs
  · rfl
  · cases hvalue : Json.Value.parse (Text.utf8 text) with
    | error fault => rfl
    | ok value => exact absurd h (Json.TakesValue.tidy (Json.Value.takesValue_read 127) hvalue).not_dashedLine

theorem Rsa.PublicKey.dashedLine_of_parse {text : String} {key : PublicKey} (h : parse text = .ok key) :
    Text.DashedLine text.toList := by
  unfold parse at h
  obtain ⟨block, hblock, -⟩ := Outcome.bind_eq_ok.mp h
  exact (dashedLine_of_block? (Outcome.ofOption_eq_ok.mp hblock)).mono (publicBlock_isInfix _)

namespace Custodian

variable {c : Custodian} {k : KeyPair} {path written : Path} {password : String} {w w' : World}

/-! ## What is read next to a key -/

theorem publicKeyOf_rsa {text : String} {key : Rsa.PublicKey} {scheme : Scheme}
    (hscheme : scheme.keytype = .rsa) (hparse : Rsa.PublicKey.parse text = .ok key) :
    publicKeyOf text .rsa scheme = Rsa.readPublic text scheme := by
  have hnamed := namedKeyType?_of_dashedLine (Rsa.PublicKey.dashedLine_of_parse hparse)
  simp only [publicKeyOf, hnamed, checkScheme_eq_ok.mpr hscheme]
  rfl

/-- The public half of a key that has been written can be read: what comes back is what the half of the key
gives, whatever stands around it in an RSA key's text, and whatever the private half was written as. -/
theorem readPublic_write (hvalid : k.validate = .ok ())
    (hwrite : (c.write k (some path) (some password)).runIn w = (.ok written, w')) :
    (k.keytype ≠ .rsa → ∃ k', KeyPair.make k.keytype k.scheme k.keyval.publicHalf "" = .ok k' ∧
        (readPublic path.publicKey k.keytype).runIn w' = (.ok k', w')) ∧
      (k.keytype = .rsa → ∃ k', Rsa.readPublic k.keyval.publicHalf k.scheme = .ok k' ∧
        (importRsaPublic path.publicKey k.scheme).runIn w' = (.ok k', w')) := by
  obtain ⟨-, -, payload, w₁, g, -, hstored⟩ := stored_of_write hwrite
  have hscheme := KeyPair.scheme_of_validate hvalid
  have hheld := hstored.publicHalf.read
  constructor
  · intro hkind
    rw [publicPayload_document hkind] at hheld
    refine ⟨_, KeyPair.make_eq_ok.mpr ⟨hscheme, rfl⟩, ?_⟩
    rw [readPublic_utf8 path.check_publicKey hheld]
    exact congrArg (·, w') (publicKeyOf_document (m := k.metadata) hkind (KeyPair.validate_assembled hvalid))
  · intro hkind
    obtain ⟨key, hkey⟩ := publicHalf_of_validate hkind hvalid
    rw [hkind] at hscheme
    rw [publicPayload_rsa hkind] at hheld
    refine ⟨_, Rsa.readPublic_eq_ok.mpr ⟨key, hkey, hscheme, rfl⟩, ?_⟩
    rw [importRsaPublic, loadPublic_run hheld, path.check_publicKey, textOf_utf8, Outcome.ok_bind,
      Outcome.ok_bind, publicKeyOf_rsa hscheme hkey]
    exact congrArg (·, w') (Rsa.readPublic_eq_ok.mpr ⟨key, hkey, hscheme, rfl⟩)

/-- An Ed25519 key under a password, and an RSA key with other text around its public half under none. -/
theorem readPublic_write_annotated :
    (∃ written w' k', (brisk.write .specimen (some ⟨"k"⟩) (some "secret")).runIn
          (World.start [] [] fun _ => 0) = (.ok written, w') ∧
        KeyPair.make .ed25519 .ed25519 KeyPair.specimen.keyval.publicHalf "" = .ok k' ∧
          (readPublic ⟨"k.pub"⟩ .ed25519).runIn w' = (.ok k', w')) ∧
      ∃ written w' k', (brisk.write (toyWith annotated) (some ⟨"k"⟩) (some "")).runIn
          (World.start [] [] fun _ => 0) = (.ok written, w') ∧
        Rsa.readPublic annotated .rsaPss = .ok k' ∧
          (importRsaPublic ⟨"k.pub"⟩ .rsaPss).runIn w' = (.ok k', w') := by
  obtain ⟨e, -, -, -, hpayload⟩ := privatePayload_envelope (c := brisk) (k := .specimen) (by decide)
    (show "secret" ≠ "" by decide) (World.start [] [] fun _ => 0)
  obtain ⟨w', hwrite⟩ := write_blank (by decide) hpayload
  have hpayload' := privatePayload_rsa_plain (c := brisk) (k := toyWith annotated) rfl
    (World.start [] [] fun _ => 0)
  obtain ⟨w'', hwrite'⟩ := write_blank (hasPrivate_toyWith annotated) (congrArg Prod.fst hpayload')
  obtain ⟨k, hk⟩ := (readPublic_write KeyPair.validate_specimen hwrite).1 (by decide)
  obtain ⟨k', hk'⟩ := (readPublic_write (validate_toyWith parse_annotated) hwrite').2 rfl
  exact ⟨⟨_, w', k, hwrite, hk⟩, _, w'', k', hwrite', hk'⟩

end Custodian

end KeyCustody
