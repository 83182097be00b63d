import KeyCustody.KeyInfo.Encrypted
import KeyCustody.Proofs.Aes
import KeyCustody.Proofs.Chaining
import KeyCustody.Proofs.PrivateInfo
/-! # Encrypted key information there and back

What is encrypted under a password is decrypted under it. The parameters of the derivation and of the cipher
are read back from their encoding, which adds little to the encrypted bytes. -/

namespace KeyCustody

open Der

/-! ## Parameters -/

theorem Prf.ofElement?_element (p : Prf) : ofElement? p.element = some p := by
  cases p <;> decide

theorem AesSize.find?_oid (size : AesSize) : all.find? (·.oid == size.oid) = some size := by
  cases size <;> decide

namespace Derivation

variable {salt : Bytes} {rounds : Nat} {prf : Prf}

def iterationMembers (salt : Bytes) (rounds : Nat) (prf : Prf) : List Element :=
  octetString salt :: natural rounds :: if prf = defaultPrf then [] else [prf.element]

theorem element_pbkdf2 (salt : Bytes) (rounds : Nat) (prf : Prf) :
    (pbkdf2 salt rounds none prf).element =
      Algorithm.element ⟨pbkdf2Oid, some (sequence (iterationMembers salt rounds prf))⟩ := rfl

theorem known_iterationMembers {e : Element} (h : e ∈ iterationMembers salt rounds prf) :
    Tag.isKnown e.tag = true := by
  unfold iterationMembers at h
  split_ifs at h
  · simp only [List.mem_cons, List.not_mem_nil, or_false] at h
    rcases h with rfl | rfl <;> rfl
  · simp only [List.mem_cons, List.not_mem_nil, or_false] at h
    rcases h with rfl | rfl | rfl <;> rfl

/-- A derivation by iteration is read back, whether or not its function is left out. -/
theorem ofElement?_element (hrounds : rounds < Nat.pow 2 32)
    (hlength : (pbkdf2 salt rounds none prf).element.encode.length ≤ maxLength) :
    ofElement? (pbkdf2 salt rounds none prf).element = some (pbkdf2 salt rounds none prf) := by
  rw [element_pbkdf2] at hlength ⊢
  have hparameters : (sequence (iterationMembers salt rounds prf)).encode.length ≤ maxLength :=
    Nat.le_trans (length_member_le (by simp)) hlength
  have hmembers := Element.members?_sequence (fun _ => known_iterationMembers) hparameters
  have hname : (oid pbkdf2Oid).oid? = some pbkdf2Oid := by decide
  simp only [ofElement?, algorithm?_element hname rfl hlength, Option.bind_eq_bind, Option.bind_some,
    hmembers, if_true]
  simp only [iterationMembers, Element.valueOf?, octetString, if_true, Option.bind_some,
    naturalBelow?_natural hrounds]
  split_ifs with hprf
  · rw [hprf]
    rfl
  · have hrest : length? [prf.element] = some (none, [prf.element]) := rfl
    simp only [hrest, Option.bind_some, Prf.ofElement?_element, Option.pure_def]

theorem known_element (d : Derivation) : Tag.isKnown d.element.tag = true := by
  cases d <;> rfl

theorem length_natural_rounds (hrounds : rounds < 2 ^ 32) : (natural rounds).encode.length ≤ 11 :=
  length_natural_le hrounds (by decide) (by decide)

theorem length_element (hsalt : salt.length = 16) (hrounds : rounds < 2 ^ 32) :
    (pbkdf2 salt rounds none .sha256).element.encode.length = (natural rounds).encode.length + 47 := by
  have hfirst : (octetString salt).encode.length = salt.length + 2 :=
    (octetString salt).length_encode_of_short (by simp only [octetString]; omega)
  have hsecond := length_natural_rounds hrounds
  have hthird : Prf.sha256.element.encode.length = 14 := by decide
  have hprf : Prf.sha256 ≠ defaultPrf := by decide
  have hname : pbkdf2Oid.length = 9 := by decide
  have hmembers : ((iterationMembers salt rounds .sha256).flatMap Element.encode).length =
      (natural rounds).encode.length + 32 := by
    simp only [iterationMembers, if_neg hprf, List.flatMap_cons, List.flatMap_nil, List.append_nil,
      List.length_append]
    omega
  have hparameters := length_sequence_of_short (iterationMembers salt rounds .sha256) (by omega)
  rw [element_pbkdf2, length_algorithm (by omega)]
  omega

end Derivation

namespace Encryption

variable {salt iv : Bytes} {rounds : Nat} {prf : Prf} {size : AesSize} {derivation : Derivation}

theorem cipherOf?_cipherElement (hiv : iv.length = 16)
    (hlength : (cipherElement size iv).encode.length ≤ maxLength) :
    cipherOf? (cipherElement size iv) = some (size, iv) := by
  have hname : (oid size.oid).oid? = some size.oid := by
    cases size <;> decide
  have halgorithm : (cipherElement size iv).algorithm? = some ⟨size.oid, some (octetString iv)⟩ :=
    algorithm?_element hname rfl hlength
  have hvalue : (octetString iv).valueOf? Tag.octetString = some iv := rfl
  simp only [cipherOf?, halgorithm, Option.bind_eq_bind, Option.bind_some, hvalue, AesSize.find?_oid,
    hiv, if_true, Option.pure_def]

/-- The element that a scheme in use is encoded as. -/
def standardElement (derivation : Derivation) (size : AesSize) (iv : Bytes) : Element :=
  Algorithm.element ⟨standardOid, some (sequence [derivation.element, cipherElement size iv])⟩

theorem ofElement?_standardElement (hiv : iv.length = 16)
    (hderivation : derivation.element.encode.length ≤ maxLength →
      Derivation.ofElement? derivation.element = some derivation)
    (hlength : (standardElement derivation size iv).encode.length ≤ maxLength) :
    ofElement? (standardElement derivation size iv) = some (.standard derivation size iv) := by
  let members := [derivation.element, cipherElement size iv]
  have hparameters : (sequence members).encode.length ≤ maxLength :=
    Nat.le_trans (length_member_le (by simp [members])) hlength
  have hmember : ∀ e ∈ members, e.encode.length ≤ maxLength :=
    fun e he => Nat.le_trans (length_member_le he) hparameters
  have hknown : ∀ e ∈ members, Tag.isKnown e.tag = true := by
    simp only [members, List.forall_mem_cons]
    exact ⟨derivation.known_element, rfl, by simp⟩
  have hname : (oid standardOid).oid? = some standardOid := by decide
  have halgorithm : (standardElement derivation size iv).algorithm? =
      some ⟨standardOid, some (sequence members)⟩ :=
    algorithm?_element hname rfl hlength
  have hfirst := hderivation (hmember _ (by simp [members]))
  have hsecond : cipherOf? (cipherElement size iv) = some (size, iv) :=
    cipherOf?_cipherElement hiv (hmember _ (by simp [members]))
  simp only [ofElement?, halgorithm, Element.members?_sequence hknown hparameters, members, hfirst,
    hsecond, Option.bind_eq_bind, Option.bind_some, if_true, Option.pure_def]

theorem length_standardElement (hderivation : derivation.element.encode.length ≤ 58) (hiv : iv.length = 16) :
    (standardElement derivation size iv).encode.length = derivation.element.encode.length + 46 := by
  have hoctets : (octetString iv).encode.length = iv.length + 2 :=
    (octetString iv).length_encode_of_short (by simp only [octetString]; omega)
  have hsize : size.oid.length = 9 := by
    cases size <;> decide
  have hname : standardOid.length = 9 := by decide
  have hcipher : (cipherElement size iv).encode.length = 31 := by
    rw [cipherElement, length_algorithm (by omega)]
    omega
  have hmembers : ([derivation.element, cipherElement size iv].flatMap Element.encode).length =
      derivation.element.encode.length + 31 := by
    simp only [List.flatMap_cons, List.flatMap_nil, List.append_nil, List.length_append]
    omega
  have hparameters := length_sequence_of_short [derivation.element, cipherElement size iv] (by omega)
  rw [standardElement, length_algorithm (by omega)]
  omega

end Encryption

namespace EncryptedInfo

variable {salt iv data contents : Bytes} {rounds : Nat} {prf : Prf} {size : AesSize}

theorem encode?_standard (derivation : Derivation) (size : AesSize) (iv data : Bytes) :
    (EncryptedInfo.mk (.standard derivation size iv) data).encode? =
      some (sequence [Encryption.standardElement derivation size iv, octetString data]).encode := rfl

/-- Encrypted key information is read back with its parameters. -/
theorem decode?_encode? (hrounds : rounds < Nat.pow 2 32) (hiv : iv.length = 16)
    (hencode : (EncryptedInfo.mk (.standard (.pbkdf2 salt rounds none prf) size iv) data).encode? =
      some contents) (hlength : contents.length ≤ maxLength) :
    decode? contents = some ⟨.standard (.pbkdf2 salt rounds none prf) size iv, data⟩ := by
  let derivation : Derivation := .pbkdf2 salt rounds none prf
  rw [encode?_standard] at hencode
  obtain rfl := Option.some.inj hencode
  have hmembers := members?_eq_some_iff.mpr ⟨rfl, hlength, by
    simp only [List.forall_mem_cons]
    exact ⟨rfl, rfl, by simp⟩⟩
  have hencryption : Encryption.ofElement? (Encryption.standardElement derivation size iv) =
      some (.standard derivation size iv) :=
    Encryption.ofElement?_standardElement hiv (Derivation.ofElement?_element hrounds)
      (Nat.le_trans (length_member_le (by simp [derivation])) hlength)
  have hdata : (octetString data).valueOf? Tag.octetString = some data := rfl
  simp only [decode?, hmembers, Option.bind_eq_bind, Option.bind_some, hencryption, hdata,
    derivation, Option.pure_def]

/-- What encryption with the longest key makes of some bytes, when these are encrypted. -/
def sealed (salt : Bytes) (rounds : Nat) (iv data : Bytes) : EncryptedInfo :=
  ⟨.standard (.pbkdf2 salt rounds none .sha256) .aes256 iv, data⟩

/-- The length of the encoding of so many bytes after they have been encrypted, or a bound on it if they are
few. -/
def fullLength (plain rounds : Nat) : Nat := 16 * (plain / 16 + 1) + (natural rounds).encode.length + 105

/-- It takes millions of bytes to come close to the limit of encodings, and there the length is exact. -/
theorem length_encode?_le_iff {plain : Nat} (hsalt : salt.length = 16) (hrounds : rounds < 2 ^ 32)
    (hiv : iv.length = 16) (hdata : data.length = 16 * (plain / 16 + 1)) (hplain : plain < 2 ^ 31)
    (hencode : (sealed salt rounds iv data).encode? = some contents) :
    contents.length ≤ maxLength ↔ fullLength plain rounds ≤ maxLength := by
  have hshort := Derivation.length_natural_rounds hrounds
  have hencryption : (Encryption.standardElement (.pbkdf2 salt rounds none .sha256) .aes256
      iv).encode.length = (natural rounds).encode.length + 93 := by
    have hderivation := Derivation.length_element hsalt hrounds
    rw [Encryption.length_standardElement (by omega) hiv, hderivation]
  rw [sealed, encode?_standard] at hencode
  obtain rfl := Option.some.inj hencode
  generalize Encryption.standardElement _ _ _ = encryption at hencryption ⊢
  have hvalue : ([encryption, octetString data].flatMap Element.encode).length =
      encryption.encode.length + (octetString data).encode.length := by
    simp only [List.flatMap_cons, List.flatMap_nil, List.append_nil, List.length_append]
  have hmax := maxLength_eq
  unfold fullLength
  by_cases hlong : 2 ^ 24 ≤ data.length
  · have hoctets : (octetString data).encode.length = data.length + 6 :=
      (octetString data).length_encode_of_long hlong (by simp only [octetString]; omega)
    have hsequence : (sequence [encryption, octetString data]).encode.length = _ + 6 :=
      Element.length_encode_of_long (by simp only [Der.sequence]; omega) (by simp only [Der.sequence]; omega)
    simp only [Der.sequence] at hsequence hvalue ⊢
    omega
  · have hoctets : (octetString data).encode.length ≤ data.length + 6 := length_octetString_le (by omega)
    have hsequence : (sequence [encryption, octetString data]).encode.length ≤ _ + 6 :=
      length_sequence_le_add (Nat.le_of_eq hvalue) (by omega)
    exact iff_of_true (by omega) (by omega)

/-- Bytes are encrypted with the given parameters, into no more than sixteen further bytes, and decrypted
under the password to what they were. -/
theorem exists_encrypt? (plain password salt : Bytes) (rounds : Nat) (hiv : iv.length = 16) :
    ∃ data, encrypt? plain password salt iv rounds = some (sealed salt rounds iv data) ∧
      data.length = 16 * (plain.length / 16 + 1) ∧
      (sealed salt rounds iv data).decrypt? password = some plain := by
  let derived := Digest.pbkdf2 Digest.sha256 password salt rounds AesSize.aes256.bytes
  have hderive : (Derivation.pbkdf2 salt rounds none .sha256).derive? password AesSize.aes256.bytes =
      some derived := rfl
  have hlength : derived.length = 32 :=
    Digest.length_pbkdf2 Digest.length_sha256_output (by decide) _ _ _ _
  obtain ⟨key, hkey⟩ := Cipher.Aes.Key.exists_ofBytes? hlength
  refine ⟨Cipher.Chaining.encrypt key.encrypt iv plain, ?_, ?_, ?_⟩
  · simp only [encrypt?, sealed, hderive, hkey, Option.bind_eq_bind, Option.bind_some, Option.pure_def]
  · exact Cipher.Chaining.length_encrypt key.length_encrypt iv plain
  · simp only [decrypt?, sealed, hderive, hkey, Option.bind_eq_bind, Option.bind_some]
    exact Cipher.Chaining.decrypt?_encrypt (fun _ => key.decrypt_encrypt) key.length_encrypt hiv plain

end EncryptedInfo

end KeyCustody
