import KeyCustody.Proofs.EnvelopeGrammar
/-! # What becomes of the text of an envelope

Whether a text is an envelope within the limit of iterations can be said without a password. If it is, its bytes
come out exactly under a password whose tag is that of the envelope, and any other password fails to decrypt. An
envelope without iterations and a wrong size of the cipher's parameters are not met, as decoding refuses both. -/

namespace KeyCustody.Envelope

variable {text password : String} {limit : UInt32} {e : Envelope} {failure : Failure}

theorem wellFormed_of_decode (h : decode text = .ok e) : e.WellFormed := by
  obtain ⟨p, hp⟩ | ⟨-, hcount⟩ := exists_parts text
  · rw [decode_of_fields hp] at h
    exact (Parts.decode_eq_ok.mp h).2.2.2.2.2
  · cases h.symm.trans hcount

/-- The envelope that a text consists of, if it asks for no more iterations than the limit. -/
def decodeWithin (text : String) (limit : UInt32) : Outcome Envelope := do
  let e ← decode text
  if limit < e.iterations then
    throw (.envelope (.tooManyIterations e.iterations.toNat limit.toNat))
  return e

/-- The password plays no part before the envelope is unlocked. -/
theorem unlockText_eq (text password : String) (limit : UInt32) :
    unlockText text password limit = decodeWithin text limit >>= (·.unlock password) := by
  unfold unlockText decodeWithin
  cases decode text with
  | error failure => rfl
  | ok e =>
    simp only [Outcome.ok_bind]
    split_ifs <;> rfl

theorem decodeWithin_eq_ok : decodeWithin text limit = .ok e ↔ decode text = .ok e ∧ e.iterations ≤ limit := by
  unfold decodeWithin
  cases decode text with
  | error failure => exact ⟨nofun, nofun⟩
  | ok found =>
    simp only [Outcome.ok_bind]
    split_ifs with hmore
    · refine ⟨nofun, ?_⟩
      rintro ⟨⟨⟩, hle⟩
      exact absurd hmore (UInt32.not_lt.mpr hle)
    · refine ⟨?_, fun h => h.1⟩
      rintro ⟨⟩
      exact ⟨rfl, UInt32.not_lt.mp hmore⟩

theorem decodeWithin_eq_error :
    decodeWithin text limit = .error failure ↔ decode text = .error failure ∨
      ∃ e, decode text = .ok e ∧ limit < e.iterations ∧
        failure = .envelope (.tooManyIterations e.iterations.toNat limit.toNat) := by
  unfold decodeWithin
  cases decode text with
  | error cause => simp [bind, Except.bind]
  | ok found =>
    simp only [Outcome.ok_bind]
    split_ifs with hmore
    · constructor
      · rintro ⟨⟩
        exact .inr ⟨found, rfl, hmore, rfl⟩
      · rintro (⟨⟨⟩⟩ | ⟨e, ⟨⟩, -, rfl⟩)
        rfl
    · constructor
      · nofun
      · rintro (⟨⟨⟩⟩ | ⟨e, ⟨⟩, hmore', -⟩)
        exact absurd hmore' hmore

theorem isMalformedEnvelope_of_decodeWithin (h : decodeWithin text limit = .error failure) :
    failure.IsMalformedEnvelope ∧ failure ≠ .envelope .zeroIterations := by
  obtain h | ⟨e, -, -, rfl⟩ := decodeWithin_eq_error.mp h
  · obtain ⟨fault, rfl, hfault⟩ := decode_eq_error h
    exact ⟨⟨rfl, rfl⟩, fun h => hfault (Failure.envelope.inj h)⟩
  · exact ⟨⟨rfl, rfl⟩, nofun⟩

/-- Under a password, an envelope that has been decoded opens or fails to decrypt. -/
theorem unlock_of_decode (h : decode text = .ok e) (password : String) :
    e.unlock password =
      if e.tag = tagOf (deriveKey password e.salt e.iterations) e.ciphertext then
        .ok (Bytes.xor e.ciphertext
          (keyStream (deriveKey password e.salt e.iterations) e.iv e.ciphertext.length))
      else .error .tagMismatch := by
  have hformed := wellFormed_of_decode h
  rw [unlock_eq hformed.iterations hformed.iv]
  simp only [eq_comm]

/-- Unlocking a text fails for the text or for the password. -/
theorem unlockText_eq_error :
    unlockText text password limit = .error failure ↔ decodeWithin text limit = .error failure ∨
      ∃ e, decodeWithin text limit = .ok e ∧ e.tag ≠ tagOf (deriveKey password e.salt e.iterations) e.ciphertext ∧
        failure = .tagMismatch := by
  rw [unlockText_eq, Outcome.bind_eq_error]
  refine or_congr_right (exists_congr fun e => and_congr_right fun h => ?_)
  rw [unlock_of_decode (decodeWithin_eq_ok.mp h).1]
  split_ifs with htag
  · exact ⟨nofun, fun h => absurd htag h.1⟩
  · exact ⟨fun h => ⟨htag, (Except.error.inj h).symm⟩, fun h => congrArg _ h.2.symm⟩

theorem unlockText_eq_ok {plaintext : Bytes} :
    unlockText text password limit = .ok plaintext ↔
      ∃ e, decode text = .ok e ∧ e.iterations ≤ limit ∧
        e.tag = tagOf (deriveKey password e.salt e.iterations) e.ciphertext ∧
        plaintext = Bytes.xor e.ciphertext
          (keyStream (deriveKey password e.salt e.iterations) e.iv e.ciphertext.length) := by
  rw [unlockText_eq, Outcome.bind_eq_ok]
  refine exists_congr fun e => ?_
  rw [decodeWithin_eq_ok, and_assoc]
  refine and_congr_right fun h => and_congr_right fun _ => ?_
  rw [unlock_of_decode h]
  split_ifs with htag
  · exact ⟨fun h => ⟨htag, (Except.ok.inj h).symm⟩, fun h => congrArg _ h.2.symm⟩
  · exact ⟨nofun, fun h => absurd h.1 htag⟩

/-- Nothing else can happen. Whether a text is malformed does not depend on the password, and it is exactly if the
text is no envelope or one beyond the limit. It opens exactly if the tag is that of the password. -/
theorem unlockText_outcomes (text password : String) (limit : UInt32) :
    ((∃ plaintext, unlockText text password limit = .ok plaintext) ∨
        (∃ failure, unlockText text password limit = .error failure ∧ failure.IsMalformedEnvelope) ∨
        ∃ failure, unlockText text password limit = .error failure ∧ failure.report.isDecryptionFailure = true) ∧
      (unlockText text password limit ≠ .error (.envelope .zeroIterations) ∧
        unlockText text password limit ≠ .error .cipherParameters) ∧
      ((∃ failure, unlockText text password limit = .error failure ∧ failure.IsMalformedEnvelope) ↔
        (∃ failure, decode text = .error failure) ∨ ∃ e, decode text = .ok e ∧ limit < e.iterations) ∧
      (∀ failure : Failure, failure.IsMalformedEnvelope → unlockText text password limit = .error failure →
        ∀ password', unlockText text password' limit = .error failure) ∧
      ∀ plaintext, unlockText text password limit = .ok plaintext ↔
        ∃ e, decode text = .ok e ∧ e.iterations ≤ limit ∧
          e.tag = tagOf (deriveKey password e.salt e.iterations) e.ciphertext ∧
          plaintext = Bytes.xor e.ciphertext
            (keyStream (deriveKey password e.salt e.iterations) e.iv e.ciphertext.length) := by
  have hmismatch : ¬ Failure.tagMismatch.IsMalformedEnvelope := fun h => absurd h.1 (by decide)
  have hmalformed : ∀ {failure : Failure}, failure.IsMalformedEnvelope →
      unlockText text password limit = .error failure → decodeWithin text limit = .error failure := by
    intro failure hfailure h
    obtain h | ⟨e, -, -, rfl⟩ := unlockText_eq_error.mp h
    · exact h
    · exact absurd hfailure hmismatch
  refine ⟨?_, ⟨?_, ?_⟩, ⟨?_, ?_⟩, ?_, fun plaintext => unlockText_eq_ok⟩
  · cases hunlock : unlockText text password limit with
    | ok plaintext => exact .inl ⟨plaintext, rfl⟩
    | error failure =>
      obtain h | ⟨e, -, -, rfl⟩ := unlockText_eq_error.mp hunlock
      · exact .inr (.inl ⟨failure, rfl, (isMalformedEnvelope_of_decodeWithin h).1⟩)
      · exact .inr (.inr ⟨_, rfl, rfl⟩)
  · intro h
    have hzero := hmalformed ⟨rfl, rfl⟩ h
    exact (isMalformedEnvelope_of_decodeWithin hzero).2 rfl
  · intro h
    obtain h | ⟨e, -, -, h⟩ := unlockText_eq_error.mp h
    · exact absurd (isMalformedEnvelope_of_decodeWithin h).1.1 (by decide)
    · cases h
  · rintro ⟨failure, h, hfailure⟩
    obtain h | ⟨e, hdecode, hmore, -⟩ := decodeWithin_eq_error.mp (hmalformed hfailure h)
    · exact .inl ⟨failure, h⟩
    · exact .inr ⟨e, hdecode, hmore⟩
  · intro h
    have hrefused : ∃ failure, decodeWithin text limit = .error failure := by
      obtain ⟨failure, h⟩ | ⟨e, hdecode, hmore⟩ := h
      · exact ⟨failure, decodeWithin_eq_error.mpr (.inl h)⟩
      · exact ⟨_, decodeWithin_eq_error.mpr (.inr ⟨e, hdecode, hmore, rfl⟩)⟩
    obtain ⟨failure, h⟩ := hrefused
    exact ⟨failure, unlockText_eq_error.mpr (.inl h), (isMalformedEnvelope_of_decodeWithin h).1⟩
  · intro failure hfailure h password'
    exact unlockText_eq_error.mpr (.inl (hmalformed hfailure h))

end KeyCustody.Envelope
