import KeyCustody.Proofs.Envelope
/-! # Passwords that are one key

A keyed hash fills its key with zeros up to a whole block, or hashes it first if it is longer. Passwords
with the same block are one password to an envelope: short ones are so exactly if one of them is the other
and zero characters after it. All others are refused, unless the tags of the encrypted bytes agree. -/

namespace KeyCustody

namespace Digest

variable {h : Iterated} {a b : Bytes}

theorem HmacKey.block_of_le (ha : a.length ≤ h.blockSize) :
    block h a = a ++ List.replicate (h.blockSize - a.length) 0 := by
  simp only [block, if_neg (Nat.not_lt.mpr ha)]

/-- Of two keys with one block, the longer one has only zeros more. -/
private theorem eq_append_of_block {m n : Nat} (hle : a.length ≤ b.length)
    (heq : a ++ List.replicate m 0 = b ++ List.replicate n 0) :
    b = a ++ List.replicate (b.length - a.length) 0 := by
  obtain ⟨c, rfl⟩ : a <+: b := by
    refine List.prefix_of_prefix_length_le (List.prefix_append a (List.replicate m 0)) ?_ hle
    rw [heq]
    exact List.prefix_append _ _
  rw [List.append_assoc, List.append_cancel_left_eq] at heq
  have hzeros : c = List.replicate c.length 0 := by
    rw [List.eq_replicate_iff]
    refine ⟨rfl, fun x hx => ?_⟩
    exact List.eq_of_mem_replicate (heq ▸ List.mem_append_left _ hx)
  rw [List.length_append, Nat.add_sub_cancel_left, ← hzeros]

/-- Keys of at most a block have the same block exactly if they differ in zeros at the end. -/
theorem HmacKey.block_eq_iff (ha : a.length ≤ h.blockSize) (hb : b.length ≤ h.blockSize) :
    block h a = block h b ↔ ∃ n, a = b ++ List.replicate n 0 ∨ b = a ++ List.replicate n 0 := by
  rw [block_of_le ha, block_of_le hb]
  constructor
  · intro heq
    rcases Nat.le_total a.length b.length with hle | hle
    · exact ⟨_, .inr (eq_append_of_block hle heq)⟩
    · exact ⟨_, .inl (eq_append_of_block hle heq.symm)⟩
  · rintro ⟨n, rfl | rfl⟩
    · rw [List.length_append, List.length_replicate] at ha
      rw [List.append_assoc, List.replicate_append_replicate, List.length_append, List.length_replicate]
      congr 2
      omega
    · rw [List.length_append, List.length_replicate] at hb
      rw [List.append_assoc, List.replicate_append_replicate, List.length_append, List.length_replicate]
      congr 2
      omega

/-- Only the block of the password enters into what is made of it. -/
theorem pbkdf2_congr (hblock : HmacKey.block h a = HmacKey.block h b) (salt : Bytes)
    (rounds length : Nat) : pbkdf2 h a salt rounds length = pbkdf2 h b salt rounds length := by
  unfold pbkdf2 HmacKey.ofBytes
  rw [hblock]

end Digest

namespace Text

theorem utf8_injective : Function.Injective utf8 := by
  intro s t h
  have hread := congrArg ofUtf8? h
  rw [ofUtf8?_utf8, ofUtf8?_utf8] at hread
  exact Option.some.inj hread

def padded (s : String) (n : Nat) : String := s ++ String.ofList (List.replicate n '\x00')

theorem utf8_padded (s : String) (n : Nat) : utf8 (padded s n) = utf8 s ++ List.replicate n 0 := by
  have hzero : String.utf8EncodeChar '\x00' = [0] := by decide
  simp [padded, utf8, hzero, List.flatMap_replicate]

end Text

namespace Envelope

variable {plaintext salt iv : Bytes} {iterations : UInt32} {p q : String}

/-- Two passwords that a keyed hash takes for the same key. -/
def SameKey (p q : String) : Prop :=
  Digest.HmacKey.block Digest.sha256 (Text.utf8 p) = Digest.HmacKey.block Digest.sha256 (Text.utf8 q)

/-- Short passwords are the same key exactly if zero characters are all that one has more. -/
theorem sameKey_iff (hp : (Text.utf8 p).length ≤ 64) (hq : (Text.utf8 q).length ≤ 64) :
    SameKey p q ↔ ∃ n, p = Text.padded q n ∨ q = Text.padded p n := by
  rw [SameKey, Digest.HmacKey.block_eq_iff hp hq]
  simp only [← Text.utf8_padded, Text.utf8_injective.eq_iff]

theorem deriveKey_congr (h : SameKey p q) (salt : Bytes) (iterations : UInt32) :
    deriveKey p salt iterations = deriveKey q salt iterations :=
  Digest.pbkdf2_congr h salt iterations.toNat 32

/-- What another password makes of an envelope that was locked under `p`. -/
theorem unlock_under (hiterations : iterations ≠ 0) (hiv : iv.length = 16) (ciphertext : Bytes) :
    unlock ⟨salt, iterations, tagOf (deriveKey p salt iterations) ciphertext, iv, ciphertext⟩ q =
      if tagOf (deriveKey q salt iterations) ciphertext = tagOf (deriveKey p salt iterations) ciphertext
      then .ok (Bytes.xor ciphertext (keyStream (deriveKey q salt iterations) iv ciphertext.length))
      else .error .tagMismatch :=
  unlock_eq hiterations hiv q

/-- An envelope that was locked under one password refuses another one, as a decryption that failed, exactly
if the tags of the encrypted bytes differ, and otherwise it opens. They never differ if both passwords are the
same key, and then it opens with what was locked. -/
theorem unlock_other_password (hiterations : iterations ≠ 0) (hiv : iv.length = 16) (plaintext salt : Bytes)
    (p q : String) :
    ∃ e, lock plaintext p iterations salt iv = .ok e ∧
      ((∃ failure, e.unlock q = .error failure ∧ failure.report.isDecryptionFailure = true) ↔
        tagOf (deriveKey q salt iterations) e.ciphertext ≠
          tagOf (deriveKey p salt iterations) e.ciphertext) ∧
      ((∃ text, e.unlock q = .ok text) ↔
        tagOf (deriveKey q salt iterations) e.ciphertext =
          tagOf (deriveKey p salt iterations) e.ciphertext) ∧
      (SameKey p q → e.unlock q = .ok plaintext) ∧
      ((Text.utf8 p).length ≤ 64 → (Text.utf8 q).length ≤ 64 →
        (SameKey p q ↔ ∃ n, p = Text.padded q n ∨ q = Text.padded p n)) := by
  obtain ⟨ciphertext, hlock, -⟩ := lock_eq_ok plaintext p salt hiterations hiv
  refine ⟨_, hlock, ?_, ?_, fun hsame => ?_, sameKey_iff⟩
  · rw [unlock_under hiterations hiv]
    split_ifs with htag
    · simp [htag]
    · have hfailure : Failure.tagMismatch.report.isDecryptionFailure = true := by decide
      exact iff_of_true ⟨_, rfl, hfailure⟩ htag
  · rw [unlock_under hiterations hiv]
    split_ifs with htag <;> simp [htag]
  · have hopen := unlock_lock hlock hiterations hiv
    rw [unlock_under hiterations hiv, deriveKey_congr hsame] at hopen
    rwa [unlock_under hiterations hiv, deriveKey_congr hsame]

theorem unlock_other_password_padded :
    ∃ e, lock [1, 2, 3] "pw" 1 [1] (List.replicate 16 0) = .ok e ∧
      e.unlock "pw\x00" = .ok [1, 2, 3] := by
  have hcount : (1 : UInt32) ≠ 0 := by decide
  have hiv : (List.replicate 16 (0 : UInt8)).length = 16 := by decide
  obtain ⟨e, hlock, -, -, hopen, hsame⟩ :=
    unlock_other_password hcount hiv [1, 2, 3] [1] "pw" "pw\x00"
  exact ⟨e, hlock, hopen ((hsame (by decide) (by decide)).mpr ⟨1, .inr (by decide)⟩)⟩

/-- Not every other password is refused: a zero character more makes no difference. -/
theorem unlock_other_password_accepted :
    ¬ ∀ (plaintext salt iv : Bytes) (iterations : UInt32) (p q : String) (e : Envelope), p ≠ q →
      lock plaintext p iterations salt iv = .ok e →
        ∃ failure, e.unlock q = .error failure ∧ failure.report.isDecryptionFailure = true := by
  intro hall
  have hcount : (1 : UInt32) ≠ 0 := by decide
  have hiv : (List.replicate 16 (0 : UInt8)).length = 16 := by decide
  have hsame : SameKey "pw" "pw\x00" :=
    (sameKey_iff (by decide) (by decide)).mpr ⟨1, .inr (by decide)⟩
  obtain ⟨ciphertext, hlock, -⟩ := lock_eq_ok [1, 2, 3] "pw" [1] hcount hiv
  obtain ⟨failure, hfail, -⟩ := hall _ _ _ _ _ "pw\x00" _ (by decide) hlock
  rw [unlock_under hcount hiv, deriveKey_congr hsame, if_pos rfl] at hfail
  cases hfail

end Envelope

end KeyCustody
