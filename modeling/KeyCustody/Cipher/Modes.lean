import KeyCustody.Bytes.Basic
/-! # Modes of block ciphers

In block chaining each block is added to the encryption of the block before it, the first one to the initial
block. The data is filled up to whole blocks by bytes that say how many of them there are; at least one is
added, so that the filling can always be taken off. In counter mode the data is added to the encryptions of a
counter of sixteen bytes that starts at the initial block and wraps around. -/

namespace KeyCustody.Cipher.Chaining

/-- Whole blocks encrypted after the block `previous`. -/
def link (encrypt : Bytes → Bytes) : (previous : Bytes) → List Bytes → List Bytes
  | _, [] => []
  | previous, block :: blocks =>
    let sealed := encrypt (Bytes.xor block previous)
    sealed :: link encrypt sealed blocks

def unlink (decrypt : Bytes → Bytes) : (previous : Bytes) → List Bytes → List Bytes
  | _, [] => []
  | previous, block :: blocks =>
    Bytes.xor (decrypt block) previous :: unlink decrypt block blocks

def fill (data : Bytes) : Bytes :=
  let count := 16 - data.length % 16
  data ++ List.replicate count (UInt8.ofNat count)

/-- The data without its filling, which must name its own length from 1 to 16. -/
def unfill? (filled : Bytes) : Option Bytes := do
  let last ← filled.getLast?
  let count := last.toNat
  let kept := filled.length - count
  if 0 < count ∧ count ≤ 16 ∧ filled.drop kept = List.replicate count last then
    some (filled.take kept)
  else none

def encrypt (block : Bytes → Bytes) (iv data : Bytes) : Bytes :=
  (link block iv (Bytes.chunks 16 (fill data))).flatten

/-- The inverse of `encrypt`; fails unless the data consists of whole blocks, at least one, whose
decryption ends in a filling. -/
def decrypt? (block : Bytes → Bytes) (iv data : Bytes) : Option Bytes :=
  if data.length % 16 = 0 then unfill? (unlink block iv (Bytes.chunks 16 data)).flatten else none

end KeyCustody.Cipher.Chaining

namespace KeyCustody.Cipher.Counter

/-- The counter block `index` places after the initial block. -/
def block (iv : Bytes) (index : Nat) : Bytes := Bytes.ofNat 16 (iv.toNat + index)

/-- The pieces of the data added to the encrypted counter blocks from `index` on. -/
def applyFrom (encrypt : Bytes → Bytes) (iv : Bytes) : (index : Nat) → List Bytes → Bytes
  | _, [] => []
  | index, piece :: pieces =>
    Bytes.xor piece (encrypt (block iv index)) ++ applyFrom encrypt iv (index + 1) pieces

def apply (encrypt : Bytes → Bytes) (iv data : Bytes) : Bytes :=
  applyFrom encrypt iv 0 (Bytes.chunks 16 data)

variable {encrypt : Bytes → Bytes} {iv data : Bytes}

/-- The encryptions of `count` counter blocks from `index` on. -/
def streamFrom (encrypt : Bytes → Bytes) (iv : Bytes) : (index count : Nat) → Bytes
  | _, 0 => []
  | index, count + 1 => encrypt (block iv index) ++ streamFrom encrypt iv (index + 1) count

def keyStream (encrypt : Bytes → Bytes) (iv : Bytes) (length : Nat) : Bytes :=
  (streamFrom encrypt iv 0 length).take length

theorem length_streamFrom (h : ∀ b, (encrypt b).length = 16) (iv : Bytes) (index count : Nat) :
    (streamFrom encrypt iv index count).length = 16 * count := by
  induction count generalizing index with
  | zero => rfl
  | succ count ih =>
    rw [streamFrom, List.length_append, h, ih]
    omega

theorem length_keyStream (h : ∀ b, (encrypt b).length = 16) (iv : Bytes) (length : Nat) :
    (keyStream encrypt iv length).length = length := by
  rw [keyStream, List.length_take, length_streamFrom h]
  omega

theorem applyFrom_chunks (h : ∀ b, (encrypt b).length = 16) {count : Nat}
    (hc : data.length ≤ count) (index : Nat) :
    applyFrom encrypt iv index (Bytes.chunksUpTo 16 count data) =
      Bytes.xor data (streamFrom encrypt iv index count) := by
  induction count generalizing data index with
  | zero => rw [List.length_eq_zero_iff.mp (Nat.le_zero.mp hc)]; rfl
  | succ count ih =>
    rw [Bytes.chunksUpTo]
    split
    next hempty =>
      rw [List.isEmpty_iff.mp hempty]
      rfl
    next hfull =>
      rw [applyFrom, ih (by simp only [List.length_drop]; omega), streamFrom]
      by_cases hlong : 16 ≤ data.length
      · rw [← Bytes.xor_append, List.take_append_drop]
        rw [List.length_take, h]
        omega
      · rw [List.drop_eq_nil_of_le (by omega), List.take_of_length_le (by omega),
          Bytes.xor_append_right (by rw [h]; omega)]
        exact List.append_nil _

/-- Data is encrypted by adding the key stream to it. -/
theorem apply_eq_xor (h : ∀ b, (encrypt b).length = 16) (iv data : Bytes) :
    apply encrypt iv data = Bytes.xor data (keyStream encrypt iv data.length) := by
  have hlength := length_streamFrom h iv 0 data.length
  rw [apply, Bytes.chunks, applyFrom_chunks h (Nat.le_refl _), keyStream]
  conv => lhs; rw [← List.take_append_drop data.length (streamFrom encrypt iv 0 data.length)]
  exact Bytes.xor_append_right (by rw [List.length_take]; omega) _

end KeyCustody.Cipher.Counter
