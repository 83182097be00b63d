import KeyCustody.Proofs.PublicFile
import KeyCustody.Proofs.RoundTrip
import KeyCustody.Proofs.RsaEncryption
import KeyCustody.Proofs.Signing
/-! # Private halves can be encrypted

Settings are refused under which some operation would always fail. What is accepted is enough for keys in
envelopes: these can be encrypted under every count but zero. RSA keys have their own documents, which know a
greatest count of their own, and settings do not. -/

namespace KeyCustody

open Rsa

/-! ## RSA documents -/

namespace Rsa

variable {info : PrivateInfo} {text password : String} {rounds : Nat} {salt iv : Bytes}

theorem encryptedDocument_refused (h : maxRounds < rounds) :
    encryptedDocument info password rounds salt iv = .error .rsaEncryption := by
  have hrefused : rounds > maxRounds := h
  simp only [encryptedDocument, if_pos hrefused, Option.bind_eq_bind, Option.bind_none]
  rfl

end Rsa

/-! ## Payloads -/

namespace Custodian

variable {c : Custodian} {k : KeyPair} {password : String} {w : World}

/-- The private half of a valid RSA key is encrypted, unless the count is too great for its document or the
text too long. -/
theorem privatePayload_rsa (hkind : k.keytype = .rsa) (hvalid : k.validate = .ok ())
    (hprivate : k.hasPrivate = true) (hpassword : password ≠ "") :
    (maxRounds < c.settings.iterations.toNat →
        ((c.privatePayload k password).runIn w).1 = .error .rsaEncryption) ∧
      (c.settings.iterations.toNat ≤ maxRounds →
        (∃ document, ((c.privatePayload k password).runIn w).1 = .ok document) ∨
          ((c.privatePayload k password).runIn w).1 = .error .rsaEncryption ∧
            Der.maxLength < k.keyval.privateHalf.length) := by
  obtain ⟨key, -, hkey, -⟩ | ⟨seed, hother, -⟩ | ⟨key, publicKey, hother, -⟩ :=
    KeyPair.corresponds_of_validate hvalid hprivate
  · obtain ⟨block, info, hblock, -, hinfo, -⟩ := PrivateKey.parse_eq_ok.mp hkey
    have hsalt : (w.draw 16).length = 16 := by simp [World.draw]
    have hiv : ({ w with drawn := w.drawn + 16 }.draw 16).length = 16 := by simp [World.draw]
    rw [privatePayload_encryptText c hkind hpassword]
    constructor
    · intro hrounds
      rw [encryptText, privateInfo_eq_ok.mpr ⟨block, hblock, hinfo⟩, Outcome.ok_bind,
        encryptedDocument_refused hrounds]
    · intro hrounds
      obtain ⟨hfits, hlong⟩ := encryptText_opens hblock hinfo hpassword hrounds hsalt hiv
      obtain hfull | hfull := Nat.lt_or_ge Der.maxLength _
      · exact .inr ⟨hlong hfull, maxLength_lt_of_fullLength hblock hinfo hrounds hfull⟩
      · obtain ⟨document, block', hdocument, -⟩ := hfits hfull
        exact .inl ⟨document, hdocument⟩
  · rw [hkind] at hother
    cases hother
  · rw [hkind] at hother
    cases hother

/-- Under accepted settings, the private half of a valid key can be encrypted under every password, unless it
is an RSA key and the count is above the greatest one of its document: then it never can. The only other limit
is that of a text which is longer itself than any encoding may be. -/
theorem privatePayload_fails (hvalid : k.validate = .ok ()) (hprivate : k.keyval.privateHalf ≠ "")
    (hpassword : password ≠ "") :
    ((∃ payload, ((c.privatePayload k password).runIn w).1 = .ok payload) ∨
        ((c.privatePayload k password).runIn w).1 = .error .rsaEncryption) ∧
      (((c.privatePayload k password).runIn w).1 = .error .rsaEncryption → k.keytype = .rsa ∧
        (maxRounds < c.settings.iterations.toNat ∨ Der.maxLength < k.keyval.privateHalf.length)) ∧
      (k.keytype = .rsa → maxRounds < c.settings.iterations.toNat →
        ((c.privatePayload k password).runIn w).1 = .error .rsaEncryption) := by
  by_cases hkind : k.keytype = .rsa
  · obtain ⟨hmany, hfew⟩ :=
      privatePayload_rsa (c := c) (w := w) hkind hvalid (bne_iff_ne.mpr hprivate) hpassword
    by_cases hrounds : maxRounds < c.settings.iterations.toNat
    · exact ⟨.inr (hmany hrounds), fun _ => ⟨hkind, .inl hrounds⟩, fun _ => hmany⟩
    · obtain ⟨document, hdocument⟩ | ⟨hfail, hlong⟩ := hfew (Nat.le_of_not_lt hrounds)
      · refine ⟨.inl ⟨document, hdocument⟩, fun hfail => ?_, fun _ => hmany⟩
        rw [hdocument] at hfail
        cases hfail
      · exact ⟨.inr hfail, fun _ => ⟨hkind, .inr hlong⟩, fun _ => hmany⟩
  · obtain ⟨e, -, -, -, hpayload⟩ := privatePayload_envelope (c := c) hkind hpassword w
    refine ⟨.inl ⟨_, hpayload⟩, fun hfail => ?_, fun hrsa => absurd hrsa hkind⟩
    rw [hpayload] at hfail
    cases hfail

/-- A custodian with a count that is one too great for RSA keys, which the settings allow. -/
def tireless : Custodian := ⟨{ iterations := 100000001, maxIterations := 100000001 }, by decide⟩

/-- The same custodian encrypts an Ed25519 key, and not an RSA key. -/
theorem privatePayload_fails_tireless :
    (∃ payload, ((tireless.privatePayload .specimen "secret").runIn (World.start [] [] fun _ => 0)).1 =
        .ok payload) ∧
      ((tireless.privatePayload (toyWith toyPublic) "secret").runIn (World.start [] [] fun _ => 0)).1 =
        .error .rsaEncryption := by
  obtain ⟨hspecimen, hcause, -⟩ := privatePayload_fails (c := tireless)
    (w := World.start [] [] fun _ => 0) KeyPair.validate_specimen (by decide)
    (show "secret" ≠ "" by decide)
  obtain ⟨-, -, htoy⟩ := privatePayload_fails (c := tireless) (w := World.start [] [] fun _ => 0)
    validate_toyWith_toyPublic (bne_iff_ne.mp (hasPrivate_toyWith toyPublic)) (show "secret" ≠ "" by decide)
  refine ⟨hspecimen.resolve_right fun hfail => ?_, htoy rfl (by decide)⟩
  cases (hcause hfail).1

/-- Accepted settings can make it impossible to encrypt a valid key. -/
theorem privatePayload_tireless :
    ¬ ∀ (c : Custodian) (k : KeyPair) (password : String) (w : World), k.validate = .ok () →
      k.keyval.privateHalf ≠ "" → password ≠ "" →
        ∃ payload, ((c.privatePayload k password).runIn w).1 = .ok payload := by
  intro hall
  obtain ⟨payload, hpayload⟩ := hall tireless (toyWith toyPublic) "secret"
    (World.start [] [] fun _ => 0) validate_toyWith_toyPublic (bne_iff_ne.mp (hasPrivate_toyWith toyPublic))
    (by decide)
  obtain ⟨hmany, -⟩ := privatePayload_rsa (c := tireless) (k := toyWith toyPublic)
    (w := World.start [] [] fun _ => 0) rfl validate_toyWith_toyPublic (hasPrivate_toyWith toyPublic)
    (show "secret" ≠ "" by decide)
  rw [hmany (by decide)] at hpayload
  cases hpayload

end Custodian

end KeyCustody
