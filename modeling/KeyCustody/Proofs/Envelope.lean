import KeyCustody.Envelope
import KeyCustody.Proofs.Aes
import KeyCustody.Proofs.Numerals
import KeyCustody.Proofs.Utf8
/-! # Envelopes there and back

Locking under a derived key adds a key stream and a tag. Unlocking succeeds exactly when the tag is the
one of the encrypted bytes under the derived key, and gives the sum with the key stream. The text of a
well formed envelope is decoded as that envelope. -/

namespace KeyCustody

namespace Envelope

variable {plaintext plaintext' salt iv : Bytes} {password : String} {iterations : UInt32}
  {e : Envelope}

/-! ## Locking and unlocking -/

theorem length_deriveKey (password : String) (salt : Bytes) (iterations : UInt32) :
    (deriveKey password salt iterations).length = 32 :=
  Digest.length_pbkdf2 Digest.length_sha256_output (by decide) _ _ _ _

def keyStream (key iv : Bytes) (length : Nat) : Bytes :=
  match Cipher.Aes.Key.ofBytes? key with
  | some k => Cipher.Counter.keyStream k.encrypt iv length
  | none => []

/-- The tag of encrypted bytes under a key. -/
def tagOf (key ciphertext : Bytes) : Bytes := Digest.hmac Digest.sha256 key ciphertext

theorem length_tagOf (key ciphertext : Bytes) : (tagOf key ciphertext).length = 32 :=
  Digest.length_hmac Digest.length_sha256_output _ _

theorem length_keyStream {key : Bytes} (hkey : key.length = 32) (iv : Bytes) (length : Nat) :
    (keyStream key iv length).length = length := by
  obtain ⟨k, hk⟩ := Cipher.Aes.Key.exists_ofBytes? hkey
  rw [keyStream, hk]
  exact Cipher.Counter.length_keyStream k.length_encrypt iv length

theorem applyKeyStream_eq {key : Bytes} (hkey : key.length = 32) (hiv : iv.length = 16)
    (data : Bytes) :
    applyKeyStream key iv data = .ok (Bytes.xor data (keyStream key iv data.length)) := by
  obtain ⟨k, hk⟩ := Cipher.Aes.Key.exists_ofBytes? hkey
  simp only [applyKeyStream, keyStream, hk, if_pos (And.intro hkey hiv)]
  rw [Cipher.Counter.apply_eq_xor k.length_encrypt]

theorem lock_eq_ok (plaintext : Bytes) (password : String) (salt : Bytes)
    (hiterations : iterations ≠ 0) (hiv : iv.length = 16) :
    ∃ ciphertext, lock plaintext password iterations salt iv =
        .ok ⟨salt, iterations, tagOf (deriveKey password salt iterations) ciphertext, iv,
          ciphertext⟩ ∧
      ciphertext =
        Bytes.xor plaintext (keyStream (deriveKey password salt iterations) iv plaintext.length) ∧
      ciphertext.length = plaintext.length := by
  have hkey := length_deriveKey password salt iterations
  refine ⟨_, ?_, rfl, ?_⟩
  · simp only [lock, if_neg hiterations, applyKeyStream_eq hkey hiv]
    rfl
  · rw [Bytes.length_xor, length_keyStream hkey, Nat.min_self]

/-- Unlocking succeeds exactly when the tag is right, and then removes the key stream. -/
theorem unlock_eq (hiterations : e.iterations ≠ 0) (hiv : e.iv.length = 16) (password : String) :
    e.unlock password =
      if tagOf (deriveKey password e.salt e.iterations) e.ciphertext = e.tag then
        .ok (Bytes.xor e.ciphertext
          (keyStream (deriveKey password e.salt e.iterations) e.iv e.ciphertext.length))
      else .error .tagMismatch := by
  have hkey := length_deriveKey password e.salt e.iterations
  simp only [unlock, if_neg hiterations, applyKeyStream_eq hkey hiv]
  by_cases htag : tagOf (deriveKey password e.salt e.iterations) e.ciphertext = e.tag
  · have hsame := Bytes.sameSecret_iff.mpr htag
    rw [tagOf] at hsame
    rw [if_pos htag, hsame]
    rfl
  · have hsame : ¬ Bytes.sameSecret (tagOf (deriveKey password e.salt e.iterations) e.ciphertext)
        e.tag = true := fun h => htag (Bytes.sameSecret_iff.mp h)
    rw [tagOf, Bool.not_eq_true] at hsame
    rw [if_neg htag, hsame]
    rfl

theorem unlock_lock (hlock : lock plaintext password iterations salt iv = .ok e)
    (hiterations : iterations ≠ 0) (hiv : iv.length = 16) : e.unlock password = .ok plaintext := by
  obtain ⟨ciphertext, hok, hciphertext, hlength⟩ := lock_eq_ok plaintext password salt hiterations hiv
  rw [hok] at hlock
  cases hlock
  rw [unlock_eq hiterations hiv, if_pos rfl]
  change Except.ok (Bytes.xor ciphertext (keyStream _ iv ciphertext.length)) = _
  rw [hlength, hciphertext, Bytes.xor_xor]
  exact Nat.le_of_eq (length_keyStream (length_deriveKey _ _ _) iv _).symm

/-! ## Texts of envelopes -/

theorem fields_of_notMem {f : List Char} (h : '@' ∉ f) : fields f = [f] := by
  induction f with
  | nil => rfl
  | cons c f ih =>
    simp only [List.mem_cons, not_or] at h
    rw [fields, ih h.2]
    rintro cs ⟨⟩
    exact fun _ => h.1 rfl

theorem fields_append {f : List Char} (h : '@' ∉ f) (rest : List Char) :
    fields (f ++ (mark ++ rest)) = f :: fields rest := by
  induction f with
  | nil => rfl
  | cons c f ih =>
    simp only [List.mem_cons, not_or] at h
    rw [List.cons_append, fields, ih h.2]
    rintro cs ⟨⟩
    exact fun _ => h.1 rfl

theorem trim_of_notBlank {cs : List Char} (h : ∀ c ∈ cs, Text.isBlank c = false) :
    Text.trim cs = cs := by
  have hdrop : ∀ ds : List Char, (∀ c ∈ ds, Text.isBlank c = false) →
      ds.dropWhile Text.isBlank = ds := by
    intro ds hds
    cases ds with
    | nil => rfl
    | cons d ds => rw [List.dropWhile_cons, hds d List.mem_cons_self]; rfl
  rw [Text.trim, hdrop cs h, Text.trimEnd, hdrop, List.reverse_reverse]
  exact fun c hc => h c (List.mem_reverse.mp hc)

theorem notMem_encodeChars (b : Bytes) : '@' ∉ Hex.encodeChars b := by
  intro h
  exact absurd (Hex.encodeChars_isAlphanum h) (by decide)

theorem notMem_digits (n : Nat) : '@' ∉ Decimal.digits n := by
  intro h
  exact absurd (Decimal.digits_isDigit h) (by decide)

theorem isAlphanum_or_mark (e : Envelope) {c : Char} (h : c ∈ e.encodeChars) :
    c.isAlphanum = true ∨ c = '@' := by
  have hhex : ∀ {b}, c ∈ Hex.encodeChars b → c.isAlphanum = true := Hex.encodeChars_isAlphanum
  have hdigits : c ∈ Decimal.digits e.iterations.toNat → c.isAlphanum = true := by
    intro hc
    rw [Char.isAlphanum, Decimal.digits_isDigit hc, Bool.or_true]
  have hmark : c ∈ mark → c = '@' := by simp [mark]
  simp only [encodeChars, List.intercalate, List.intersperse, List.flatten_cons, List.flatten_nil,
    List.append_nil, List.mem_append] at h
  tauto

theorem encodeChars_notBlank (e : Envelope) : ∀ c ∈ e.encodeChars, Text.isBlank c = false := by
  intro c hc
  rcases e.isAlphanum_or_mark hc with hc | rfl
  · exact Text.isBlank_of_isAlphanum hc
  · rfl

theorem fields_encodeChars (e : Envelope) :
    fields (Text.trim e.encodeChars) = [Hex.encodeChars e.salt, Decimal.digits e.iterations.toNat,
      Hex.encodeChars e.tag, Hex.encodeChars e.iv, Hex.encodeChars e.ciphertext] := by
  rw [trim_of_notBlank e.encodeChars_notBlank]
  simp only [encodeChars, List.intercalate, List.intersperse, List.flatten_cons, List.flatten_nil,
    List.append_nil]
  rw [fields_append (notMem_encodeChars _), fields_append (notMem_digits _),
    fields_append (notMem_encodeChars _), fields_append (notMem_encodeChars _),
    fields_of_notMem (notMem_encodeChars _)]

theorem hexField_encodeChars (name : String) (b : Bytes) :
    hexField name (Hex.encodeChars b) = .ok b := by
  rw [hexField, ← Hex.encode, Hex.decode_encode]
  rfl

theorem countField_digits (n : UInt32) : countField (Decimal.digits n.toNat) = .ok n := by
  have hplus : ∀ rest, Decimal.digits n.toNat ≠ '+' :: rest := by
    intro rest h
    exact absurd (Decimal.digits_isDigit (h ▸ List.mem_cons_self)) (by decide)
  have hsmall : n.toNat < Nat.pow 2 32 := n.toNat_lt
  simp only [countField, Decimal.read?_digits, if_pos hsmall, UInt32.ofNat_toNat]

/-- What decoding a text makes sure of. -/
structure WellFormed (e : Envelope) : Prop where
  salt : e.salt ≠ []
  iterations : e.iterations ≠ 0
  iv : e.iv.length = 16
  tag : e.tag.length = 32

theorem decode_encode (h : e.WellFormed) : decode e.encode = .ok e := by
  unfold decode encode
  rw [String.toList_ofList, fields_encodeChars]
  simp [hexField_encodeChars, countField_digits, h.salt, h.iterations, h.iv, h.tag, bind,
    Except.bind, pure, Except.pure]

/-! ## From locking to unlocking -/

/-- Bytes that are locked come back from the text of their envelope, whatever the initial block: the blocks
that follow it are counted modulo their number. -/
theorem unlock_decode_lock (plaintext : Bytes) (password : String) (hiterations : iterations ≠ 0)
    (hsalt : salt.length = 16) (hiv : iv.length = 16) :
    ∃ e, lock plaintext password iterations salt iv = .ok e ∧
      (e.salt = salt ∧ e.iterations = iterations ∧ e.iv = iv) ∧ decode e.encode = .ok e ∧
      e.unlock password = .ok plaintext ∧ e.ciphertext.length = plaintext.length := by
  obtain ⟨ciphertext, hlock, -, hlength⟩ := lock_eq_ok plaintext password salt hiterations hiv
  have hformed : WellFormed ⟨salt, iterations,
      tagOf (deriveKey password salt iterations) ciphertext, iv, ciphertext⟩ := by
    refine ⟨?_, hiterations, hiv, length_tagOf _ _⟩
    rintro rfl
    cases hsalt
  exact ⟨_, hlock, ⟨rfl, rfl, rfl⟩, decode_encode hformed, unlock_lock hlock hiterations hiv, hlength⟩

/-- The greatest initial block, and bytes that end within the third block. -/
theorem unlock_decode_lock_greatest :
    ∃ e, lock (List.replicate 40 7) "secret" 1 (List.replicate 16 1) (List.replicate 16 0xFF) = .ok e ∧
      (e.salt = List.replicate 16 1 ∧ e.iterations = 1 ∧ e.iv = List.replicate 16 0xFF) ∧
      decode e.encode = .ok e ∧ e.unlock "secret" = .ok (List.replicate 40 7) ∧
      e.ciphertext.length = (List.replicate 40 (7 : UInt8)).length :=
  unlock_decode_lock (List.replicate 40 7) "secret" (by decide) (by decide) (by decide)

example : Cipher.Counter.block (List.replicate 16 0xFF) 1 = List.replicate 16 0 := by decide

end Envelope

end KeyCustody
