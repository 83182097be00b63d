import KeyCustody.Proofs.Envelope
import KeyCustody.Proofs.ImportSoundness
import KeyCustody.Proofs.KeyDocument
import KeyCustody.Proofs.KeyPair
import KeyCustody.Proofs.Writing
/-! # Encrypted keys there and back

A key that has been written under a password is read back under that password with the same halves. Its
document is locked in an envelope, the text of the envelope is what the path leads to afterwards, and the
envelope opens under the custodian's limit because acceptable settings do not exceed it. -/

namespace KeyCustody.Custodian

variable {c : Custodian} {k : KeyPair} {path written : Path} {password payload : String}
  {w w' : World}

/-! ## Accepted settings -/

theorem iterations_ne_zero (c : Custodian) : c.settings.iterations ≠ 0 := by
  intro h
  have := c.accepted
  simp [Settings.fault?, h] at this

theorem iterations_le_limit (c : Custodian) : ¬ c.settings.maxIterations < c.settings.iterations := by
  intro h
  have := c.accepted
  simp [Settings.fault?, h, c.iterations_ne_zero] at this

/-! ## Payloads -/

/-- The payload under a password is the text of an envelope around the key's document. -/
theorem privatePayload_envelope (hkind : k.keytype ≠ .rsa) (hpassword : password ≠ "")
    (w : World) :
    ∃ e : Envelope, e.WellFormed ∧ e.iterations = c.settings.iterations ∧
      e.unlock password = .ok (Text.utf8 k.document) ∧
      ((c.privatePayload k password).runIn w).1 = .ok e.encode := by
  have hdraw : ∀ w' : World, (w'.draw 16).length = 16 := fun w' => by simp [World.draw]
  obtain ⟨ciphertext, hlock, -⟩ := Envelope.lock_eq_ok (Text.utf8 k.document) password (w.draw 16)
    c.iterations_ne_zero (hdraw { w with drawn := w.drawn + 16 })
  have hsalt : w.draw 16 ≠ [] := by
    intro h
    have := hdraw w
    rw [h] at this
    cases this
  refine ⟨_, ⟨hsalt, c.iterations_ne_zero, hdraw _, Envelope.length_tagOf _ _⟩, rfl,
    Envelope.unlock_lock hlock c.iterations_ne_zero (hdraw _), ?_⟩
  unfold privatePayload
  split
  · exact absurd ‹_› hkind
  · rw [if_neg hpassword, Action.runIn_bind, Action.runIn_random, Action.andThen_ok,
      Action.runIn_bind, Action.runIn_random, Action.andThen_ok, Action.runIn_ofOutcome,
      Envelope.lockKey, hlock]
    rfl

theorem namedKeyType?_encode (e : Envelope) : namedKeyType? e.encode = none := by
  have hbrace : '\x7b' ∉ e.encodeChars := by
    intro h
    exact absurd (e.isAlphanum_or_mark h) (by decide)
  apply namedKeyType?_eq_none
  rw [Envelope.encode, String.toList_ofList]
  intro h
  exact hbrace (List.dropWhile_sublist _ |>.mem (List.mem_of_mem_head? h))

/-! ## What is read back -/

/-- The key pair that reading gives: the halves as they were, the identifier computed anew and the hash
algorithms of the settings. -/
def reread (c : Custodian) (k : KeyPair) : KeyPair :=
  { k with
    keyid := computeKeyid k.keytype k.scheme k.keyval.publicHalf .sha256
    hashAlgorithms := some c.settings.hashAlgorithms }

theorem keyPairOf_parse {document : Bytes} (hparse : KeyPair.parse document = .ok k)
    (hvalid : k.validate = .ok ()) (hprivate : k.hasPrivate = true) :
    c.keyPairOf document k.keytype = .ok (c.reread k) := by
  let k' := KeyPair.assembled k.keytype k.scheme k.keyval.publicHalf k.keyval.privateHalf
  have hmake : KeyPair.make k.keytype k.scheme k.keyval.publicHalf k.keyval.privateHalf = .ok k' :=
    KeyPair.make_eq_ok.mpr ⟨KeyPair.scheme_of_validate hvalid, rfl⟩
  have hagain : k'.validate = .ok () := by
    rw [← hvalid]
    exact KeyPair.validate_congr rfl rfl rfl
  have hhas : k'.hasPrivate = true := hprivate
  exact keyPairOf_eq_ok.mpr ⟨k, hparse, rfl, k', hmake, hhas, hagain, rfl⟩

theorem keyPairOf_document (hvalid : k.validate = .ok ()) (hprivate : k.hasPrivate = true) :
    c.keyPairOf (Text.utf8 k.document) k.keytype = .ok (c.reread k) :=
  keyPairOf_parse k.parse_document hvalid hprivate

/-- How the private key in a text is found under a password, unless it is an RSA key. -/
theorem privateKeyOf_locked {expected : KeyType} (hkind : expected ≠ .rsa) (hpassword : password ≠ "")
    (text : String) (scheme : Scheme) :
    c.privateKeyOf text expected password scheme =
      if (namedKeyType? text).isSome then .error (.needlessPassword expected)
      else Envelope.unlockText text password c.settings.maxIterations >>= (c.keyPairOf · expected) := by
  cases expected with
  | rsa => exact absurd rfl hkind
  | ed25519 => exact if_neg hpassword
  | ecdsa => exact if_neg hpassword

/-- How the private key in a text is found without a password, unless it is an RSA key. -/
theorem privateKeyOf_plain {expected : KeyType} (hkind : expected ≠ .rsa) (text : String)
    (scheme : Scheme) :
    c.privateKeyOf text expected "" scheme =
      if Envelope.looksLike text then .error (.missingPassword expected)
      else c.keyPairOf (Text.utf8 text) expected := by
  cases expected with
  | rsa => exact absurd rfl hkind
  | ed25519 => rfl
  | ecdsa => rfl

theorem unlockText_encode {e : Envelope} (hformed : e.WellFormed)
    (hiterations : e.iterations = c.settings.iterations) {plaintext : Bytes}
    (hunlock : e.unlock password = .ok plaintext) :
    Envelope.unlockText e.encode password c.settings.maxIterations = .ok plaintext := by
  have hlimit : ¬ c.settings.maxIterations < e.iterations := hiterations ▸ c.iterations_le_limit
  simp only [Envelope.unlockText, Envelope.decode_encode hformed, bind, Except.bind, hunlock,
    if_neg hlimit]

/-- A key that was written under a password is read back under it: the file at the path holds the text
of an envelope around the key's document, which opens under the same custodian. -/
theorem read_write (hkind : k.keytype ≠ .rsa) (hvalid : k.validate = .ok ())
    (hpassword : password ≠ "")
    (hwrite : (c.write k (some path) (some password)).runIn w = (.ok written, w')) :
    (c.readPrivate path k.keytype (some password)).runIn w' =
      (.ok { k with
        keyid := computeKeyid k.keytype k.scheme k.keyval.publicHalf .sha256
        hashAlgorithms := some c.settings.hashAlgorithms }, w') := by
  obtain ⟨hprivate, hpath, payload, w₁, w₂, u, v, hpayload, -, hreplace⟩ := write_ok hwrite
  obtain ⟨e, hformed, hiterations, hunlock, hencode⟩ :=
    privatePayload_envelope (c := c) hkind hpassword w
  rw [hpayload] at hencode
  cases hencode
  obtain ⟨mid, g, t, rfl, -, hput⟩ := Atomic.replace_ok hreplace
  have htext : (Action.readText path).runIn { w₂ with tree := t } =
      (.ok e.encode, { w₂ with tree := t }) :=
    Action.runIn_readText.mpr ⟨⟨_, hput.read, Text.ofUtf8?_utf8 _⟩, rfl⟩
  unfold readPrivate loadPrivate Password.acquire
  simp only [Action.runIn_bind, Action.runIn_ofOutcome, Action.runIn_pure, Action.andThen_ok, hpath,
    if_neg hkind, htext]
  rw [privateKeyOf_locked hkind hpassword, namedKeyType?_encode,
    unlockText_encode hformed hiterations hunlock, Option.isSome_none, if_neg Bool.false_ne_true,
    Outcome.ok_bind, keyPairOf_document hvalid hprivate, reread]

def brisk : Custodian := ⟨{ iterations := 1 }, by decide⟩

theorem read_write_specimen :
    ∃ written w',
      (brisk.write .specimen (some ⟨"k"⟩) (some "secret")).runIn (World.start [] [] fun _ => 0) =
        (.ok written, w') ∧
      (brisk.readPrivate ⟨"k"⟩ .ed25519 (some "secret")).runIn w' =
        (.ok { KeyPair.specimen with
          keyid := computeKeyid .ed25519 .ed25519 KeyPair.specimen.keyval.publicHalf .sha256
          hashAlgorithms := some [.sha256, .sha512] }, w') := by
  have hrun : ((brisk.write .specimen (some ⟨"k"⟩) (some "secret")).runIn
      (World.start [] [] fun _ => 0)).1.toOption.isSome = true := by
    decide +kernel
  obtain ⟨written, w', hwrite⟩ := Action.runIn_eq_ok hrun
  exact ⟨written, w', hwrite, read_write (by decide) KeyPair.validate_specimen (by decide) hwrite⟩

end KeyCustody.Custodian
