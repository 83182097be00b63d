import KeyCustody.Key.Material
import Mathlib.Tactic.Common
/-! # Key pairs that are in order

Whether a key pair is valid depends on its kind, its scheme and its halves alone. A scheme that belongs
to the kind is all that it takes to put a key pair together, and its identifier is the one of its public
data. -/

namespace KeyCustody

variable {keytype : KeyType} {scheme : Scheme} {publicHalf privateHalf : String} {k k' : KeyPair}

theorem checkScheme_eq_ok : checkScheme keytype scheme = .ok () ↔ scheme.keytype = keytype := by
  unfold checkScheme
  split_ifs with h <;> simp [h]

/-- A text that does not begin with an opening bracket names no kind of key. -/
theorem namedKeyType?_eq_none {text : String}
    (h : (text.toList.dropWhile Text.isBlank).head? ≠ some '\x7b') : namedKeyType? text = none := by
  unfold namedKeyType?
  rw [if_pos h]
  rfl

theorem namedKeyType?_block (b : Pem.Block) : namedKeyType? b.encode = none := by
  apply namedKeyType?_eq_none
  rw [Pem.Block.encode, String.toList_ofList]
  exact fun h => absurd (Option.some.inj h) (by decide)

namespace KeyPair

/-- The key pair that `make` puts together. -/
def assembled (keytype : KeyType) (scheme : Scheme) (publicHalf privateHalf : String) : KeyPair :=
  ⟨keytype, scheme, computeKeyid keytype scheme publicHalf .sha256, none, ⟨publicHalf, privateHalf⟩⟩

theorem make_eq_ok :
    make keytype scheme publicHalf privateHalf = .ok k ↔
      scheme.keytype = keytype ∧ k = assembled keytype scheme publicHalf privateHalf := by
  rw [← checkScheme_eq_ok]
  unfold make
  cases checkScheme keytype scheme with
  | error e => simp [bind, Except.bind]
  | ok u => simp [bind, Except.bind, pure, Except.pure, assembled, eq_comm]

theorem validate_congr (hkeytype : k'.keytype = k.keytype) (hscheme : k'.scheme = k.scheme)
    (hkeyval : k'.keyval = k.keyval) : k'.validate = k.validate := by
  obtain ⟨keytype, scheme, keyid, hashAlgorithms, keyval⟩ := k
  obtain ⟨keytype', scheme', keyid', hashAlgorithms', keyval'⟩ := k'
  cases hkeytype
  cases hscheme
  cases hkeyval
  rfl

theorem scheme_of_validate (h : k.validate = .ok ()) : k.scheme.keytype = k.keytype := by
  rw [← checkScheme_eq_ok]
  unfold validate at h
  cases hs : checkScheme k.keytype k.scheme with
  | error e => rw [hs] at h; cases h
  | ok u => rfl

/-- A key whose private half is the byte 7, thirty-two times. -/
def specimen : KeyPair where
  keytype := .ed25519
  scheme := .ed25519
  keyid := "specimen"
  hashAlgorithms := none
  keyval := {
    publicHalf := "ea4a6c63e29c520abef5507b132ec5f9954776aebebe7b92421eea691446d22c"
    privateHalf := "0707070707070707070707070707070707070707070707070707070707070707" }

theorem validate_specimen : specimen.validate = .ok () := by
  have h : specimen.validate.toOption = some () := by decide +kernel
  cases hv : specimen.validate with
  | ok u => rfl
  | error e => rw [hv] at h; cases h

end KeyPair

end KeyCustody
