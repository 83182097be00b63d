import KeyCustody.Proofs.Aes
import KeyCustody.Proofs.Envelope
/-! # Envelopes that were tampered with

The tag is computed over the encrypted bytes alone, under a key that depends on the password, the salt
and the iteration count. A changed tag is always noticed, and so is every change of the encrypted bytes,
the salt or the iteration count that changes the tag they lead to. The initial block is not covered: an
envelope with another one opens, and what it gives is another byte string exactly when the key streams
differ, as they always do from sixteen bytes on. -/

namespace KeyCustody.Envelope

variable {plaintext salt iv iv' : Bytes} {password : String} {iterations : UInt32} {e : Envelope}

/-! ## Initial blocks -/

/-- Key streams of different initial blocks differ in their first block. -/
theorem keyStream_injective {key : Bytes} (hkey : key.length = 32) (hiv : iv.length = 16)
    (hiv' : iv'.length = 16) {length : Nat} (hlength : 16 ≤ length)
    (h : keyStream key iv length = keyStream key iv' length) : iv = iv' := by
  obtain ⟨k, hk⟩ := Cipher.Aes.Key.exists_ofBytes? hkey
  have hfirst : ∀ v, (keyStream key v length).take 16 =
      k.encrypt (Cipher.Counter.block v 0) := by
    intro v
    obtain ⟨m, rfl⟩ : ∃ m, length = m + 1 := ⟨length - 1, by omega⟩
    simp only [keyStream, hk, Cipher.Counter.keyStream, List.take_take, Nat.min_eq_left hlength,
      Cipher.Counter.streamFrom]
    exact List.take_left' (k.length_encrypt _)
  have hblock : ∀ v : Bytes, v.length = 16 → Cipher.Counter.block v 0 = v :=
    fun v hv => Bytes.ofNat_toNat hv
  have henc := hfirst iv
  rw [h, hfirst iv', hblock iv hiv, hblock iv' hiv'] at henc
  exact (k.encrypt_injective hiv' hiv henc).symm

/-! ## Sealed envelopes -/

/-- An envelope that locking makes around some bytes under a password. -/
structure Sealed (e : Envelope) (plaintext : Bytes) (password : String) : Prop where
  iterations : e.iterations ≠ 0
  iv : e.iv.length = 16
  tag : e.tag = tagOf (deriveKey password e.salt e.iterations) e.ciphertext
  ciphertext : e.ciphertext = Bytes.xor plaintext
    (keyStream (deriveKey password e.salt e.iterations) e.iv plaintext.length)

theorem sealed_of_lock (h : lock plaintext password iterations salt iv = .ok e) :
    e.Sealed plaintext password := by
  by_cases hiterations : iterations = 0
  · simp only [lock, if_pos hiterations] at h
    cases h
  by_cases hiv : iv.length = 16
  · obtain ⟨ciphertext, hok, hciphertext, -⟩ :=
      lock_eq_ok plaintext password salt hiterations hiv
    rw [hok] at h
    cases h
    exact ⟨hiterations, hiv, rfl, hciphertext⟩
  · obtain ⟨k, hk⟩ := Cipher.Aes.Key.exists_ofBytes? (length_deriveKey password salt iterations)
    simp only [lock, if_neg hiterations, applyKeyStream, hk,
      if_neg fun hboth => hiv (And.right hboth)] at h
    cases h

namespace Sealed

theorem length_ciphertext (h : e.Sealed plaintext password) :
    e.ciphertext.length = plaintext.length := by
  rw [h.ciphertext, Bytes.length_xor, length_keyStream (length_deriveKey _ _ _), Nat.min_self]

theorem xor_eq_iff (h : e.Sealed plaintext password) {stream : Bytes}
    (hstream : stream.length = plaintext.length) :
    Bytes.xor e.ciphertext stream = plaintext ↔
      stream = keyStream (deriveKey password e.salt e.iterations) e.iv plaintext.length := by
  have hlength := length_keyStream (length_deriveKey password e.salt e.iterations) e.iv
    plaintext.length
  have hsame : Bytes.xor e.ciphertext
      (keyStream (deriveKey password e.salt e.iterations) e.iv plaintext.length) = plaintext := by
    rw [h.ciphertext, Bytes.xor_xor (Nat.le_of_eq hlength.symm)]
  conv => lhs; rhs; rw [← hsame]
  exact Bytes.xor_right_inj (by rw [hstream, h.length_ciphertext])
    (by rw [hlength, h.length_ciphertext])

/-- What unlocking gives when the encrypted bytes are the sealed ones. -/
theorem opens_otherwise_iff (h : e.Sealed plaintext password) (e' : Envelope)
    (hciphertext : e'.ciphertext = e.ciphertext) (hiterations : e'.iterations ≠ 0)
    (hiv : e'.iv.length = 16) :
    (∃ p, e'.unlock password = .ok p ∧ p ≠ plaintext) ↔
      tagOf (deriveKey password e'.salt e'.iterations) e.ciphertext = e'.tag ∧
        keyStream (deriveKey password e'.salt e'.iterations) e'.iv plaintext.length ≠
          keyStream (deriveKey password e.salt e.iterations) e.iv plaintext.length := by
  have hother := h.xor_eq_iff (length_keyStream
    (length_deriveKey password e'.salt e'.iterations) e'.iv plaintext.length)
  rw [unlock_eq hiterations hiv, hciphertext, h.length_ciphertext]
  by_cases htag : tagOf (deriveKey password e'.salt e'.iterations) e.ciphertext = e'.tag
  · simp only [htag, if_true, true_and, Except.ok.injEq, exists_eq_left', ne_eq, hother]
  · simp only [htag, if_false, false_and, reduceCtorEq, exists_false]

/-- Other encrypted bytes never give the sealed plaintext. -/
theorem opens_otherwise_ciphertext (h : e.Sealed plaintext password) (c : Bytes) :
    (∃ p, unlock { e with ciphertext := c } password = .ok p ∧ p ≠ plaintext) ↔
      c ≠ e.ciphertext ∧ tagOf (deriveKey password e.salt e.iterations) c = e.tag := by
  have hkey := length_deriveKey password e.salt e.iterations
  have hopen := unlock_eq (e := { e with ciphertext := c }) h.iterations h.iv password
  have hsealed := h.ciphertext
  rw [hopen]
  generalize deriveKey password e.salt e.iterations = key at hkey hsealed ⊢
  have hsame : Bytes.xor c (keyStream key e.iv c.length) = plaintext ↔ c = e.ciphertext := by
    constructor
    · rintro rfl
      rw [hsealed, Bytes.length_xor, length_keyStream hkey, Nat.min_self, Bytes.xor_xor]
      exact Nat.le_of_eq (length_keyStream hkey _ _).symm
    · rintro rfl
      rw [h.length_ciphertext, hsealed, Bytes.xor_xor]
      exact Nat.le_of_eq (length_keyStream hkey _ _).symm
  by_cases htag : tagOf key c = e.tag
  · rw [if_pos htag]
    simp only [Except.ok.injEq, exists_eq_left', ne_eq, hsame]
    exact (and_iff_left htag).symm
  · rw [if_neg htag]
    simp only [reduceCtorEq, false_and, exists_false, false_iff, not_and]
    exact fun _ => htag

end Sealed

/-! ## Changes of one field -/

/-- A new value for one field of an envelope. -/
inductive Change where
  | salt (salt : Bytes)
  | iterations (count : UInt32)
  | tag (tag : Bytes)
  | iv (iv : Bytes)
  | ciphertext (ciphertext : Bytes)

namespace Change

def apply (e : Envelope) : Change → Envelope
  | .salt s => { e with salt := s }
  | .iterations n => { e with iterations := n }
  | .tag t => { e with tag := t }
  | .iv v => { e with iv := v }
  | .ciphertext c => { e with ciphertext := c }

/-- When a change of an envelope around `length` bytes goes unnoticed and matters. -/
def Unnoticed (e : Envelope) (password : String) (length : Nat) : Change → Prop
  | .salt s =>
    tagOf (deriveKey password s e.iterations) e.ciphertext = e.tag ∧
      keyStream (deriveKey password s e.iterations) e.iv length ≠
        keyStream (deriveKey password e.salt e.iterations) e.iv length
  | .iterations n =>
    tagOf (deriveKey password e.salt n) e.ciphertext = e.tag ∧
      keyStream (deriveKey password e.salt n) e.iv length ≠
        keyStream (deriveKey password e.salt e.iterations) e.iv length
  | .tag _ => False
  | .iv v =>
    keyStream (deriveKey password e.salt e.iterations) v length ≠
      keyStream (deriveKey password e.salt e.iterations) e.iv length
  | .ciphertext c =>
    c ≠ e.ciphertext ∧ tagOf (deriveKey password e.salt e.iterations) c = e.tag

end Change

/-- When a changed envelope gives another byte string than the sealed one. -/
theorem Sealed.opens_otherwise_change (h : e.Sealed plaintext password) (change : Change)
    (hchange : (change.apply e).WellFormed) :
    (∃ p, (change.apply e).unlock password = .ok p ∧ p ≠ plaintext) ↔
      change.Unnoticed e password plaintext.length := by
  have hsame := h.opens_otherwise_iff (change.apply e)
  cases change with
  | salt s => exact hsame rfl h.iterations h.iv
  | iterations n => exact hsame rfl hchange.iterations h.iv
  | tag t =>
    rw [hsame rfl h.iterations h.iv]
    exact iff_of_false (fun hboth => hboth.2 rfl) id
  | iv v =>
    rw [hsame rfl h.iterations hchange.iv]
    exact and_iff_right h.tag.symm
  | ciphertext c => exact h.opens_otherwise_ciphertext c

/-- From sixteen bytes on, every change of the initial block goes unnoticed and matters. -/
theorem Sealed.unnoticed_iv (h : e.Sealed plaintext password) (hiv' : iv'.length = 16)
    (hne : iv' ≠ e.iv) (hlong : 16 ≤ plaintext.length) :
    (Change.iv iv').Unnoticed e password plaintext.length := by
  intro hsame
  exact hne (keyStream_injective (length_deriveKey _ _ _) hiv' h.iv hlong hsame)

/-- A changed envelope gives another byte string than the sealed one exactly when the change goes
unnoticed and matters, and otherwise the sealed one or a mismatch. From sixteen bytes on, every change of
the initial block is of the first kind. -/
theorem unlock_change (hlock : lock plaintext password iterations salt iv = .ok e) (change : Change)
    (hchange : (change.apply e).WellFormed) :
    ((∃ p, (change.apply e).unlock password = .ok p ∧ p ≠ plaintext) ↔
      change.Unnoticed e password plaintext.length) ∧
    (¬ change.Unnoticed e password plaintext.length →
      (change.apply e).unlock password = .ok plaintext ∨
        (change.apply e).unlock password = .error .tagMismatch) ∧
    ∀ v, change = .iv v → v ≠ e.iv → 16 ≤ plaintext.length →
      change.Unnoticed e password plaintext.length := by
  have h := sealed_of_lock hlock
  have hiff := h.opens_otherwise_change change hchange
  refine ⟨hiff, fun hnot => ?_, ?_⟩
  · rw [← hiff] at hnot
    rw [unlock_eq hchange.iterations hchange.iv] at hnot ⊢
    split_ifs at hnot ⊢
    · left
      by_contra hne
      exact hnot ⟨_, rfl, fun heq => hne (congrArg Except.ok heq)⟩
    · exact .inr rfl
  · rintro v rfl hne hlong
    exact h.unnoticed_iv hchange.iv hne hlong

/-- An envelope around sixteen zeros, whose initial block may be replaced by another one. -/
theorem lock_zeros :
    ∃ e, lock (List.replicate 16 0) "secret" 1 [1] (List.replicate 16 0) = .ok e ∧
      e.iv = List.replicate 16 0 ∧ ((Change.iv (List.replicate 16 1)).apply e).WellFormed := by
  have hcount : (1 : UInt32) ≠ 0 := by decide
  have hiv : (List.replicate 16 (0 : UInt8)).length = 16 := by decide
  obtain ⟨c, hlock, -⟩ := lock_eq_ok (List.replicate 16 0) "secret" [1] hcount hiv
  exact ⟨_, hlock, rfl, List.cons_ne_nil _ _, hcount, rfl, length_tagOf _ c⟩

theorem unlock_change_zeros :
    ∃ e, lock (List.replicate 16 0) "secret" 1 [1] (List.replicate 16 0) = .ok e ∧
      ∃ p, ((Change.iv (List.replicate 16 1)).apply e).unlock "secret" = .ok p ∧
        p ≠ List.replicate 16 0 := by
  obtain ⟨e, hlock, hiv, hchange⟩ := lock_zeros
  have h := unlock_change hlock (.iv (List.replicate 16 1)) hchange
  have hne : List.replicate 16 1 ≠ e.iv := by rw [hiv]; decide
  exact ⟨e, hlock, h.1.mpr (h.2.2 _ rfl hne (by decide))⟩

/-- Unlocking does not refuse every envelope that was tampered with. -/
theorem unlock_not_tamper_evident :
    ¬ ∀ (plaintext : Bytes) (password : String) (iterations : UInt32) (salt iv : Bytes)
      (e : Envelope) (change : Change), lock plaintext password iterations salt iv = .ok e →
        (change.apply e).WellFormed →
          ∀ p, (change.apply e).unlock password = .ok p → p = plaintext := by
  intro hall
  obtain ⟨e, hlock, hiv, hchange⟩ := lock_zeros
  have h := sealed_of_lock hlock
  have hne : List.replicate 16 1 ≠ e.iv := by rw [hiv]; decide
  obtain ⟨p, hopen, hp⟩ := (h.opens_otherwise_change _ hchange).mpr
    (h.unnoticed_iv hchange.iv hne (by decide))
  exact hp (hall _ _ _ _ _ _ _ hlock hchange p hopen)

end KeyCustody.Envelope
