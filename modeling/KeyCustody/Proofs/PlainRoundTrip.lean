import KeyCustody.Proofs.Marks
import KeyCustody.Proofs.Reading
import KeyCustody.Proofs.RoundTrip
import KeyCustody.Proofs.Stored
/-! # Unencrypted keys there and back

A key that has been written with the empty password is its document. Before a document is read with the
empty password, it is asked whether it looks like an envelope, and a document does so if its strings have
four marks, whatever they are: such a key is written, and not read again. -/

namespace KeyCustody.Custodian

variable {c : Custodian} {k : KeyPair} {path written : Path} {password : String} {w w' : World}

theorem readPrivate_written
    (hwrite : (c.write k (some path) (some password)).runIn w = (.ok written, w')) :
    ∃ payload w₁, (c.privatePayload k password).runIn w = (.ok payload, w₁) ∧
      (c.readPrivate path k.keytype (some password)).runIn w' =
        (c.privateKeyOf payload k.keytype password k.keytype.defaultScheme, w') := by
  obtain ⟨-, hpath, payload, w₁, g, hpayload, hstored⟩ := stored_of_write hwrite
  exact ⟨payload, w₁, hpayload, c.readPrivate_given hpath (readText_utf8 hstored.privateHalf.read) _ _⟩

theorem privatePayload_plain (hkind : k.keytype ≠ .rsa) (w : World) :
    (c.privatePayload k "").runIn w = (.ok k.document, w) := by
  unfold privatePayload
  split
  · exact absurd ‹_› hkind
  · rfl

/-- The key that is found after a write with the empty password, unless its document looks like an
envelope. -/
theorem readPrivate_plain (hkind : k.keytype ≠ .rsa) (hvalid : k.validate = .ok ())
    (hwrite : (c.write k (some path) (some "")).runIn w = (.ok written, w')) :
    (c.readPrivate path k.keytype (some "")).runIn w' =
      (if Envelope.looksLike k.document then .error (.missingPassword k.keytype)
        else .ok (c.reread k), w') := by
  obtain ⟨hprivate, -⟩ := write_ok hwrite
  obtain ⟨payload, w₁, hpayload, hread⟩ := readPrivate_written hwrite
  rw [privatePayload_plain hkind] at hpayload
  cases hpayload
  rw [hread, privateKeyOf_plain hkind, keyPairOf_document hvalid hprivate]

/-- A key that was written with the empty password is read back with it, unless its strings have the
marks of an envelope: then it is said to need a password. -/
theorem read_write_plain (hkind : k.keytype ≠ .rsa) (hvalid : k.validate = .ok ())
    (hwrite : (c.write k (some path) (some "")).runIn w = (.ok written, w')) :
    (c.readPrivate path k.keytype (some "")).runIn w' =
      (if k.marks = 4 then .error (.missingPassword k.keytype)
        else .ok { k with
          keyid := computeKeyid k.keytype k.scheme k.keyval.publicHalf .sha256
          hashAlgorithms := some c.settings.hashAlgorithms }, w') := by
  rw [readPrivate_plain hkind hvalid hwrite, reread]
  by_cases hmarks : k.marks = 4
  · rw [if_pos hmarks, if_pos (k.looksLike_document.mpr hmarks)]
  · rw [if_neg hmarks, if_neg fun h => hmarks (k.looksLike_document.mp h)]

theorem read_write_plain_specimen :
    ∃ written w',
      (brisk.write .specimen (some ⟨"k"⟩) (some "")).runIn (World.start [] [] fun _ => 0) =
        (.ok written, w') ∧
      (brisk.readPrivate ⟨"k"⟩ .ed25519 (some "")).runIn w' =
        (.ok { KeyPair.specimen with
          keyid := computeKeyid .ed25519 .ed25519 KeyPair.specimen.keyval.publicHalf .sha256
          hashAlgorithms := some [.sha256, .sha512] }, w') := by
  have hrun : ((brisk.write .specimen (some ⟨"k"⟩) (some "")).runIn
      (World.start [] [] fun _ => 0)).1.toOption.isSome = true := by
    decide +kernel
  have hmarks : ¬ KeyPair.specimen.marks = 4 := by decide
  obtain ⟨written, w', hwrite⟩ := Action.runIn_eq_ok hrun
  refine ⟨written, w', hwrite, ?_⟩
  have hread := read_write_plain (by decide) KeyPair.validate_specimen hwrite
  rwa [if_neg hmarks] at hread

def marked : KeyPair := { KeyPair.specimen with keyid := "@@@@@@@@@@@@@@@@" }

/-- Not every valid key that was written with the empty password is read back with it. -/
theorem read_write_plain_marked :
    ¬ ∀ (c : Custodian) (k : KeyPair) (path written : Path) (w w' : World), k.keytype ≠ .rsa →
      k.validate = .ok () → (c.write k (some path) (some "")).runIn w = (.ok written, w') →
        ∃ k', ((c.readPrivate path k.keytype (some "")).runIn w').1 = .ok k' ∧
          k'.keytype = k.keytype ∧ k'.scheme = k.scheme ∧ k'.keyval = k.keyval := by
  intro hall
  have hkind : marked.keytype ≠ .rsa := by decide
  have hvalid : marked.validate = .ok () :=
    (KeyPair.validate_congr rfl rfl rfl).trans KeyPair.validate_specimen
  have hrun : ((brisk.write marked (some ⟨"k"⟩) (some "")).runIn
      (World.start [] [] fun _ => 0)).1.toOption.isSome = true := by
    decide +kernel
  have hlooks : Envelope.looksLike marked.document = true :=
    marked.looksLike_document.mpr (by decide)
  obtain ⟨written, w', hwrite⟩ := Action.runIn_eq_ok hrun
  obtain ⟨k', hread, -⟩ := hall _ _ _ _ _ _ hkind hvalid hwrite
  rw [readPrivate_plain hkind hvalid hwrite, if_pos hlooks] at hread
  cases hread

end KeyCustody.Custodian
