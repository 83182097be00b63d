import KeyCustody.Generation
import KeyCustody.Proofs.RsaCanonical
/-! # Sizes of RSA keys

Two limits bound the size of an RSA key: the settings bound what is asked for, and a constant bounds what is
read. They agree only if the settings name a greatest size, and one that is not above the constant. A key that
is generated is sound and so within both limits. -/

namespace KeyCustody.Rsa

open Generation

variable {s : Settings} {scheme : Scheme} {n bits : Nat} {k : KeyPair} {w w' : World}

/-! ## What can be read -/

def PublicKey.ofModulus (modulus : Nat) : PublicKey := ⟨modulus, rsaExponent⟩

theorem isSound_ofModulus (hodd : n % 2 = 1) :
    (PublicKey.ofModulus n).isSound maxPublicBits = true ↔
      bitLength n ≤ maxPublicBits ∧ rsaExponent < n := by
  have hexponent : rsaExponent % 2 = 1 ∧ 2 ≤ rsaExponent ∧ rsaExponent < Nat.pow 2 33 := by decide
  simp only [PublicKey.isSound, Bool.and_eq_true, decide_eq_true_eq, beq_iff_eq]
  simp only [PublicKey.ofModulus, hodd, hexponent, and_true]

theorem readPublic_document_eq (k : PublicKey) (hscheme : scheme.keytype = .rsa) :
    readPublic k.document scheme =
      if k.isSound maxPublicBits then .ok (.assembled .rsa scheme k.document "")
      else .error (.rsaPem .publicHalf .malformed) := by
  by_cases hsound : k.isSound maxPublicBits
  · rw [if_pos hsound, readPublic_document hsound hscheme]
  · rw [if_neg hsound, readPublic, k.parse_document_eq, if_neg hsound]
    rfl

/-! ## What can be asked for -/

/-- Accepted settings allow some size above every limit that their greatest size is not below. -/
theorem exists_allowed_above (haccepted : s.fault? = none) (limit : Nat)
    (h : ¬ ∃ most, s.rsaMaxBits = some most ∧ most.toNat ≤ limit) :
    ∃ bits, limit < bits ∧ s.allowsRsaBits bits = true := by
  cases hmost : s.rsaMaxBits with
  | none =>
    refine ⟨max s.rsaMinBits.toNat (limit + 1), by omega, ?_⟩
    simp only [Settings.allowsRsaBits, hmost, Option.all_none, Bool.and_true, decide_eq_true_eq]
    omega
  | some most =>
    have horder : s.rsaMinBits.toNat ≤ most.toNat := by
      by_contra hcrossed
      have hless : most < s.rsaMinBits := UInt64.lt_iff_toNat_lt.mpr (by omega)
      simp only [Settings.fault?, hmost, Option.filter_some, hless, decide_true, if_true] at haccepted
      split_ifs at haccepted
    refine ⟨most.toNat, ?_, ?_⟩
    · by_contra hbelow
      exact h ⟨most, hmost, by omega⟩
    · simp only [Settings.allowsRsaBits, hmost, Option.all_some, Bool.and_eq_true, decide_eq_true_eq]
      exact ⟨horder, Nat.le_refl _⟩

theorem le_of_allowed {most : UInt64} (hmost : s.rsaMaxBits = some most) (h : s.allowsRsaBits bits = true) :
    bits ≤ most.toNat := by
  simp only [Settings.allowsRsaBits, hmost, Option.all_some, Bool.and_eq_true, decide_eq_true_eq] at h
  exact h.2

/-- There is a modulus of every size that is above the size of the exponent. It is one more than a power of
two. -/
theorem exists_modulus (h : 18 ≤ bits) : ∃ n, n % 2 = 1 ∧ rsaExponent < n ∧ bitLength n = bits := by
  obtain ⟨b, rfl⟩ : ∃ b, bits = b + 2 := ⟨bits - 2, by omega⟩
  have hpow : 2 ^ 16 ≤ 2 ^ b := Nat.pow_le_pow_right (by decide) (by omega)
  refine ⟨2 ^ (b + 1) + 1, ?_, ?_, bitLength_eq (Nat.le_succ _) ?_⟩
  · rw [Nat.pow_succ]
    omega
  · rw [Nat.pow_succ, rsaExponent]
    omega
  · rw [Nat.pow_succ 2 (b + 1), Nat.pow_succ]
    omega

/-! ## What is generated -/

/-- A generated key has passed the check that it is sound. -/
theorem sound_of_generation (h : (Generation.rsa bits scheme s).runIn w = (.ok k, w')) :
    ∃ key : PrivateKey, key.isSound = true ∧
      ∃ document, k = .assembled .rsa scheme key.publicKey.document document := by
  have hlast : ∀ w₁, (rsaKey bits 1000 >>= fun key =>
      Action.ofOutcome (Outcome.require key.isSound .rsaGeneration) >>= fun _ =>
        Action.ofOutcome (keyPair key scheme)).runIn w₁ = (.ok k, w') →
      ∃ key : PrivateKey, key.isSound = true ∧
        ∃ document, k = .assembled .rsa scheme key.publicKey.document document := by
    intro w₁ h
    obtain ⟨key, w₂, -, h⟩ := Action.runIn_bind_ok h
    obtain ⟨u, w₃, hsound, h⟩ := Action.runIn_bind_ok h
    rw [Action.runIn_ofOutcome] at hsound h
    obtain ⟨document, -, hmake⟩ := Outcome.bind_eq_ok.mp (Prod.mk.inj h).1
    obtain ⟨-, hk⟩ := KeyPair.make_eq_ok.mp hmake
    exact ⟨key, Outcome.require_eq_ok.mp (Prod.mk.inj hsound).1, document, hk⟩
  unfold Generation.rsa at h
  obtain ⟨u, w₁, -, h⟩ := Action.runIn_bind_ok h
  obtain ⟨u, w₂, -, h⟩ := Action.runIn_bind_ok h
  split_ifs at h
  · obtain ⟨u, w₃, hthrow, -⟩ := Action.runIn_bind_ok h
    cases hthrow
  · exact hlast w₂ h

/-- A public key of a modulus can be read exactly if the modulus is within the limit, and above the exponent.
So settings allow only what can be read if and only if they name a greatest size within the limit. What is
generated can be read under all settings. -/
theorem readPublic_sizes (haccepted : s.fault? = none) (hscheme : scheme.keytype = .rsa) :
    (∀ n, n % 2 = 1 →
        readPublic (PublicKey.ofModulus n).document scheme =
          if bitLength n ≤ maxPublicBits ∧ rsaExponent < n then
            .ok (.assembled .rsa scheme (PublicKey.ofModulus n).document "")
          else .error (.rsaPem .publicHalf .malformed)) ∧
      ((∀ n, n % 2 = 1 → rsaExponent < n → s.allowsRsaBits (bitLength n) = true →
          ∃ k, readPublic (PublicKey.ofModulus n).document scheme = .ok k) ↔
        ∃ most, s.rsaMaxBits = some most ∧ most.toNat ≤ maxPublicBits) ∧
      ∀ bits w k w', (Generation.rsa bits scheme s).runIn w = (.ok k, w') →
        readPublic k.keyval.publicHalf scheme = .ok k.publicOnly := by
  have hread : ∀ n, n % 2 = 1 → readPublic (PublicKey.ofModulus n).document scheme =
      if bitLength n ≤ maxPublicBits ∧ rsaExponent < n then
        .ok (.assembled .rsa scheme (PublicKey.ofModulus n).document "")
      else .error (.rsaPem .publicHalf .malformed) := by
    intro n hodd
    rw [readPublic_document_eq _ hscheme]
    exact if_congr (isSound_ofModulus hodd) rfl rfl
  refine ⟨hread, ⟨fun hall => ?_, ?_⟩, ?_⟩
  · by_contra hlimit
    obtain ⟨bits, hbits, hallowed⟩ := exists_allowed_above haccepted maxPublicBits hlimit
    obtain ⟨n, hodd, hexponent, rfl⟩ := exists_modulus (Nat.le_trans (by decide) hbits)
    obtain ⟨k, hk⟩ := hall n hodd hexponent hallowed
    rw [hread n hodd, if_neg fun h => absurd hbits (Nat.not_lt.mpr h.1)] at hk
    cases hk
  · rintro ⟨most, hmost, hlimit⟩ n hodd hexponent hallowed
    rw [hread n hodd, if_pos ⟨Nat.le_trans (le_of_allowed hmost hallowed) hlimit, hexponent⟩]
    exact ⟨_, rfl⟩
  · intro bits w k w' hrun
    obtain ⟨key, hsound, document, rfl⟩ := sound_of_generation hrun
    exact readPublic_document (PrivateKey.isSound_publicKey hsound) hscheme

/-- Settings that name a greatest size which can be read, and allow small keys. -/
def matched : Settings := { rsaMinBits := 17, rsaMaxBits := some 16384 }

theorem readPublic_sizes_matched :
    (∃ n, bitLength n = 16384 ∧ ∃ k, readPublic (PublicKey.ofModulus n).document .rsaPss = .ok k) ∧
      ∃ k w', (Generation.rsa 17 .rsaPss matched).runIn (World.start [] [] fun _ => 4) = (.ok k, w') ∧
        readPublic k.keyval.publicHalf .rsaPss = .ok k.publicOnly := by
  have hrun : ((Generation.rsa 17 .rsaPss matched).runIn
      (World.start [] [] fun _ => 4)).1.toOption.isSome = true := by
    decide +kernel
  have haccepted : matched.fault? = none := by decide
  have hscheme : Scheme.rsaPss.keytype = .rsa := rfl
  obtain ⟨n, hodd, hexponent, hbits⟩ := exists_modulus (show 18 ≤ 16384 by decide)
  obtain ⟨k, w', hgenerated⟩ := Action.runIn_eq_ok hrun
  obtain ⟨-, hsizes, hback⟩ := readPublic_sizes haccepted hscheme
  have hallowed : matched.allowsRsaBits (bitLength n) = true := by
    rw [hbits]
    decide
  exact ⟨⟨n, hbits, hsizes.mpr ⟨16384, rfl, by decide⟩ n hodd hexponent hallowed⟩, k, w',
    hgenerated, hback _ _ _ _ hgenerated⟩

/-- The settings that are used unless others are given allow a public key which is too large to be read, such
as that of the modulus `2 ^ 16384 + 1`. -/
theorem readPublic_too_large :
    ¬ ∀ (s : Settings) (scheme : Scheme) (n : Nat), s.fault? = none → scheme.keytype = .rsa →
      n % 2 = 1 → s.allowsRsaBits (bitLength n) = true →
        ∃ k, readPublic (PublicKey.ofModulus n).document scheme = .ok k := by
  intro hall
  obtain ⟨n, hodd, -, hbits⟩ := exists_modulus (show 18 ≤ 16385 by decide)
  have hallowed : Settings.default.allowsRsaBits (bitLength n) = true := by
    rw [hbits]
    decide
  have hunsound : ¬ (PublicKey.ofModulus n).isSound maxPublicBits = true := by
    rw [isSound_ofModulus hodd, hbits]
    exact fun h => absurd h.1 (by decide)
  obtain ⟨k, hk⟩ := hall .default .rsaPss n (by decide) rfl hodd hallowed
  rw [readPublic_document_eq _ rfl, if_neg hunsound] at hk
  cases hk

end KeyCustody.Rsa
