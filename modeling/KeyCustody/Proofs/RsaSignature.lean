import KeyCustody.Proofs.Numerals
import KeyCustody.Proofs.RsaDocument
import KeyCustody.Rsa.Signature
/-! # RSA signatures are accepted

A signature is a number that the public map takes to the encoding of a message. The private map only gives
such numbers, so it is left to show that encodings are recognized: one with a fixed filling is computed again
and compared, and one with a salt is taken apart, which gives the salt back. -/

namespace KeyCustody.Rsa

open Digest

variable {k : PrivateKey} {n m bits count : Nat} {a b message salt encoded signature : Bytes}

/-! ## Roots -/

theorem PrivateKey.powerOf_lt (hsound : k.isSound = true) (n : Nat) :
    k.powerOf n < k.publicKey.modulus := by
  simp only [isSound, PublicKey.isSound, List.all_cons, List.all_nil, Bool.and_eq_true, beq_iff_eq,
    decide_eq_true_eq] at hsound
  obtain ⟨⟨⟨-, hmodulus⟩, hproduct⟩, ⟨hprime1, -⟩, ⟨hprime2, -⟩, -⟩ := hsound
  unfold powerOf
  split
  next coefficient _ =>
    simp only [Number.powMod_eq, ← hproduct]
    generalize Nat.pow n k.exponent2 = r
    generalize coefficient * _ = h
    have hr : r % k.prime2 < k.prime2 := Nat.mod_lt _ (by omega)
    have hh : h % k.prime1 + 1 ≤ k.prime1 := Nat.mod_lt _ (by omega)
    calc r % k.prime2 + h % k.prime1 * k.prime2
        < (h % k.prime1 + 1) * k.prime2 := by rw [Nat.add_mul]; omega
      _ ≤ k.prime1 * k.prime2 := Nat.mul_le_mul_right _ hh
  next =>
    rw [Number.powMod_eq]
    exact Nat.mod_lt _ (by omega)

theorem PrivateKey.root?_eq_some (hsound : k.isSound = true) (h : k.root? n = some m) :
    m < k.publicKey.modulus ∧ k.publicKey.apply m = n := by
  unfold root? at h
  dsimp only at h
  split_ifs at h with hback
  cases h
  exact ⟨powerOf_lt hsound n, hback.2⟩

theorem PublicKey.toNat_ofNat {k : PublicKey} (h : m < k.modulus) :
    Bytes.toNat (Bytes.ofNat k.size m) = m := by
  have hbits : k.modulus < 2 ^ (8 * k.size) := by
    refine bitLength_le ?_
    rw [size]
    omega
  have hpow : 2 ^ (8 * k.size) = Nat.pow 256 k.size := by rw [Nat.pow_mul]; rfl
  rw [Bytes.toNat_ofNat, Nat.mod_eq_of_lt]
  omega

/-! ## Encodings with a fixed filling -/

namespace Pkcs1

theorem length_encode? {size : Nat} (h : encode? size message = some encoded) : encoded.length = size := by
  unfold encode? at h
  dsimp only at h
  split_ifs at h with hshort
  cases h
  simp only [List.length_append, List.length_cons, List.length_nil, List.length_replicate] at hshort ⊢
  omega

theorem verify_of_sign? (hsound : k.isSound = true) (h : sign? k message = some signature) :
    verify k.publicKey message signature = true := by
  obtain ⟨encoded, hencoded, h⟩ := Option.bind_eq_some_iff.mp h
  obtain ⟨m, hroot, h⟩ := Option.bind_eq_some_iff.mp h
  cases h
  obtain ⟨hlt, hback⟩ := PrivateKey.root?_eq_some hsound hroot
  simp only [verify, Bytes.length_ofNat, PublicKey.toNat_ofNat hlt, hlt, hback, hencoded,
    Bytes.ofNat_toNat (length_encode? hencoded), BEq.rfl, decide_true, Bool.and_self]

end Pkcs1

/-! ## Encodings with a salt -/

namespace Pss

@[simp] theorem length_clearTop (count : Nat) (b : Bytes) : (clearTop count b).length = b.length := by
  cases b <;> rfl

theorem toNat_cleared (count : Nat) (x : UInt8) :
    (UInt8.ofNat (x.toNat % Nat.pow 2 (8 - count))).toNat = x.toNat % 2 ^ (8 - count) := by
  rw [UInt8.toNat_ofNat', Nat.pow_eq]
  exact Nat.mod_eq_of_lt (Nat.lt_of_le_of_lt (Nat.mod_le _ _) x.toNat_lt)

/-- Bits that are cleared at the end need not be cleared before. -/
theorem clearTop_xor (count : Nat) (a b : Bytes) :
    clearTop count (Bytes.xor (clearTop count a) b) = clearTop count (Bytes.xor a b) := by
  cases a with
  | nil => rfl
  | cons x a =>
    cases b with
    | nil => rfl
    | cons y b =>
      refine congrArg (List.cons · _) ?_
      rw [← UInt8.toNat_inj, toNat_cleared, toNat_cleared, UInt8.toNat_xor, UInt8.toNat_xor, toNat_cleared,
        Nat.xor_mod_two_pow, Nat.mod_mod, ← Nat.xor_mod_two_pow]

theorem clearTop_clearTop (count : Nat) (b : Bytes) : clearTop count (clearTop count b) = clearTop count b := by
  cases b with
  | nil => rfl
  | cons x b =>
    refine congrArg (List.cons · b) ?_
    rw [← UInt8.toNat_inj, toNat_cleared, toNat_cleared, Nat.mod_mod]

/-- A filling with a one at its end has no bits at the top of its first byte. -/
theorem clearTop_filling (hcount : count < 8) (n : Nat) (b : Bytes) :
    clearTop count (List.replicate n 0 ++ 1 :: b) = List.replicate n 0 ++ 1 :: b := by
  cases n with
  | zero =>
    have hone : 1 % 2 ^ (8 - count) = 1 :=
      Nat.mod_eq_of_lt (Nat.one_lt_two_pow (by omega))
    change UInt8.ofNat (1 % 2 ^ (8 - count)) :: b = 1 :: b
    rw [hone]
    rfl
  | succ n =>
    change UInt8.ofNat (0 % 2 ^ (8 - count)) :: _ = 0 :: _
    rw [Nat.zero_mod]
    rfl

theorem length_mask (seed : Bytes) (n : Nat) : (mask seed n).length = n := by
  have hblocks : ∀ l : List Nat, (l.flatMap fun i =>
      sha256.digest (seed ++ Bytes.ofNat 4 i)).length = l.length * digestSize := by
    intro l
    induction l with
    | nil => rfl
    | cons i l ih =>
      rw [List.flatMap_cons, List.length_append, ih, Digest.length_sha256, List.length_cons, digestSize]
      omega
  rw [mask, List.length_take, hblocks, List.length_range, digestSize]
  omega

/-- A mask is taken off again, whatever bits were cleared on top of it. -/
theorem clearTop_unmask {mask : Bytes} (h : a.length ≤ mask.length) (count : Nat) :
    clearTop count (Bytes.xor (clearTop count (Bytes.xor a mask)) mask) = clearTop count a := by
  rw [clearTop_xor, Bytes.xor_xor h]

theorem length_filling (hsalt : salt.length = digestSize) (filling : Nat) :
    (List.replicate filling (0 : UInt8) ++ 1 :: salt).length = filling + digestSize + 1 := by
  rw [List.length_append, List.length_replicate, List.length_cons, hsalt, Nat.add_assoc]

/-- An encoding consists of the masked filling and salt, the digest that masks them, and a mark. -/
theorem encode?_eq_some (hsalt : salt.length = digestSize) (h : encode? bits message salt = some encoded) :
    ∃ filling, (bits + 7) / 8 = filling + 2 * digestSize + 2 ∧
      encoded = clearTop (8 * ((bits + 7) / 8) - bits)
          (Bytes.xor (List.replicate filling 0 ++ 1 :: salt)
            (mask (bound message salt) (filling + digestSize + 1))) ++
        bound message salt ++ [0xbc] := by
  unfold encode? at h
  dsimp only at h
  rw [hsalt] at h
  split_ifs at h with hshort
  cases h
  obtain ⟨filling, hfilling⟩ : ∃ filling, (bits + 7) / 8 = filling + 2 * digestSize + 2 :=
    ⟨(bits + 7) / 8 - 2 * digestSize - 2, by omega⟩
  have hzeros : (bits + 7) / 8 - digestSize - digestSize - 2 = filling := by omega
  exact ⟨filling, hfilling, by rw [hzeros, length_filling hsalt]⟩

theorem length_encode? (hsalt : salt.length = digestSize) (h : encode? bits message salt = some encoded) :
    encoded.length = (bits + 7) / 8 := by
  obtain ⟨filling, hlength, rfl⟩ := encode?_eq_some hsalt h
  have hbound : (bound message salt).length = digestSize := Digest.length_sha256 _
  rw [List.length_append, List.length_append, length_clearTop, Bytes.length_xor, length_filling hsalt,
    length_mask, hbound, List.length_singleton]
  omega

/-- What is looked at in a byte string of the right length with a mark at its end. -/
theorem encodes_append {filling : Nat} {masked h : Bytes}
    (hlength : (bits + 7) / 8 = filling + 2 * digestSize + 2)
    (hmasked : masked.length = filling + digestSize + 1) (hh : h.length = digestSize) :
    encodes bits message (masked ++ h ++ [0xbc]) =
      let top := 8 * ((bits + 7) / 8) - bits
      let data := clearTop top (Bytes.xor masked (mask h masked.length))
      (clearTop top masked == masked && data.take (filling + 1) == List.replicate filling 0 ++ [1] &&
        bound message (data.drop (filling + 1)) == h) := by
  have hbefore : (bits + 7) / 8 - digestSize - 1 = masked.length := by omega
  have hfilling : (bits + 7) / 8 - 2 * digestSize - 2 = filling := by omega
  have hlong : 2 * digestSize + 2 ≤ (bits + 7) / 8 := by omega
  have hwhole : (masked ++ h ++ [0xbc]).length = (bits + 7) / 8 := by
    simp only [List.length_append, List.length_singleton, hmasked, hh]
    omega
  have hdigest : ((masked ++ h ++ [0xbc]).drop masked.length).take digestSize = h := by
    rw [List.append_assoc, List.drop_left, List.take_left' hh]
  unfold encodes
  dsimp only
  rw [hwhole, hbefore, hfilling, hdigest, List.append_assoc, List.take_left, ← List.append_assoc,
    List.getLast?_concat]
  simp only [hlong, decide_true, BEq.rfl, Bool.true_and]

/-- An encoding with a salt of the size of a digest is recognized. -/
theorem encodes_of_encode? (hsalt : salt.length = digestSize)
    (h : encode? bits message salt = some encoded) : encodes bits message encoded = true := by
  obtain ⟨filling, hlength, rfl⟩ := encode?_eq_some hsalt h
  have hcount : 8 * ((bits + 7) / 8) - bits < 8 := by omega
  have hbound : (bound message salt).length = digestSize := Digest.length_sha256 _
  have hdata := length_filling hsalt filling
  have hmask := length_mask (bound message salt) (filling + digestSize + 1)
  have hmasked : (clearTop (8 * ((bits + 7) / 8) - bits) (Bytes.xor (List.replicate filling 0 ++ 1 :: salt)
      (mask (bound message salt) (filling + digestSize + 1)))).length = filling + digestSize + 1 := by
    rw [length_clearTop, Bytes.length_xor, hdata, hmask, Nat.min_self]
  have hzeros : (List.replicate filling (0 : UInt8) ++ [1]).length = filling + 1 := by
    rw [List.length_append, List.length_replicate, List.length_singleton]
  rw [encodes_append hlength hmasked hbound]
  dsimp only
  rw [hmasked, clearTop_unmask (by rw [hdata, hmask]), clearTop_filling hcount, clearTop_clearTop,
    List.append_cons _ 1 salt, List.take_left' hzeros, List.drop_left' hzeros]
  simp only [BEq.rfl, Bool.and_self]

theorem verify_of_sign? (hsound : k.isSound = true) (hsalt : salt.length = digestSize)
    (h : sign? k message salt = some signature) : verify k.publicKey message signature = true := by
  obtain ⟨encoded, hencoded, h⟩ := Option.bind_eq_some_iff.mp h
  obtain ⟨m, hroot, h⟩ := Option.bind_eq_some_iff.mp h
  cases h
  obtain ⟨hlt, hback⟩ := PrivateKey.root?_eq_some hsound hroot
  have hrecognized := encodes_of_encode? hsalt hencoded
  simp only [verify, Bytes.length_ofNat, PublicKey.toNat_ofNat hlt, hlt, hback,
    Bytes.ofNat_toNat (length_encode? hsalt hencoded), hrecognized, BEq.rfl, decide_true, Bool.and_self]

end Pss

end KeyCustody.Rsa
