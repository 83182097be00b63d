import KeyCustody.Cipher.Modes
import Mathlib.Tactic.Common
/-! # Block chaining there and back

Data that is filled up consists of whole blocks, and it ends in a filling, whatever it is. A chain of blocks
is undone link by link, for every pair of functions on blocks of which the second undoes the first. Hence
encrypted data is decrypted to what it was. -/

namespace KeyCustody

/-! ## Pieces of one size -/

namespace Bytes

variable {size count : Nat} {b piece : Bytes} {pieces : List Bytes}

theorem length_of_mem_chunksUpTo (hb : b.length % size = 0) (h : piece ∈ chunksUpTo size count b) :
    piece.length = size := by
  induction count generalizing b with
  | zero => cases h
  | succ count ih =>
    rw [chunksUpTo] at h
    split_ifs at h with hempty
    · cases h
    · have hpos : 0 < b.length := List.length_pos_iff.mpr (by simpa using hempty)
      have hsize : size ≤ b.length := Nat.le_of_dvd hpos (Nat.dvd_of_mod_eq_zero hb)
      cases h with
      | head => rw [List.length_take, Nat.min_eq_left hsize]
      | tail _ h =>
        refine ih ?_ h
        rw [List.length_drop, ← Nat.mod_eq_sub_mod hsize, hb]

theorem length_flatten (hpieces : ∀ piece ∈ pieces, piece.length = size) :
    pieces.flatten.length = pieces.length * size := by
  have hsizes : pieces.map List.length = List.replicate pieces.length size :=
    List.eq_replicate_iff.mpr ⟨List.length_map _, by simpa using hpieces⟩
  rw [List.length_flatten, hsizes, List.sum_replicate_nat]

theorem chunksUpTo_flatten (hsize : 0 < size) (hpieces : ∀ piece ∈ pieces, piece.length = size)
    (hcount : pieces.length ≤ count) : chunksUpTo size count pieces.flatten = pieces := by
  induction pieces generalizing count with
  | nil => cases count <;> rfl
  | cons piece pieces ih =>
    rw [List.forall_mem_cons] at hpieces
    cases count with
    | zero => cases hcount
    | succ count =>
      have hempty : ¬ (piece ++ pieces.flatten).isEmpty = true := by
        rw [List.isEmpty_iff, List.append_eq_nil_iff]
        rintro ⟨rfl, -⟩
        exact absurd hpieces.1 (Nat.ne_of_lt hsize)
      rw [List.flatten_cons, chunksUpTo, if_neg hempty, List.take_left' hpieces.1,
        List.drop_left' hpieces.1, ih hpieces.2 (Nat.le_of_succ_le_succ hcount)]

theorem chunks_flatten (hsize : 0 < size) (hpieces : ∀ piece ∈ pieces, piece.length = size) :
    chunks size pieces.flatten = pieces := by
  refine chunksUpTo_flatten hsize hpieces ?_
  rw [length_flatten hpieces]
  exact Nat.le_mul_of_pos_right _ hsize

end Bytes

namespace Cipher.Chaining

/-! ## Filling -/

theorem length_fill (data : Bytes) : (fill data).length = 16 * (data.length / 16 + 1) := by
  rw [fill, List.length_append, List.length_replicate]
  omega

/-- The filling is taken off, of whatever length it is. -/
theorem unfill?_fill (data : Bytes) : unfill? (fill data) = some data := by
  obtain ⟨count, hcount⟩ : ∃ count, 16 - data.length % 16 = count := ⟨_, rfl⟩
  have hrange : 0 < count ∧ count ≤ 16 := by omega
  have hbyte : (UInt8.ofNat count).toNat = count := by
    rw [UInt8.toNat_ofNat', Nat.mod_eq_of_lt (by omega)]
  have hlast : (data ++ List.replicate count (UInt8.ofNat count)).getLast? =
      some (UInt8.ofNat count) := by
    rw [List.getLast?_append, List.getLast?_replicate, if_neg (Nat.ne_of_gt hrange.1)]
    rfl
  have hkept : (data ++ List.replicate count (UInt8.ofNat count)).length - count = data.length := by
    rw [List.length_append, List.length_replicate, Nat.add_sub_cancel]
  simp only [unfill?, fill, hcount, hlast, Option.bind_eq_bind, Option.bind_some, hbyte, hkept,
    List.drop_left, List.take_left, hrange, and_self, if_true]

/-! ## Chains -/

variable {encrypt decrypt : Bytes → Bytes} {previous iv : Bytes} {blocks : List Bytes}

theorem length_of_mem_link (hlength : ∀ block, (encrypt block).length = 16) {sealed : Bytes}
    (h : sealed ∈ link encrypt previous blocks) : sealed.length = 16 := by
  induction blocks generalizing previous with
  | nil => cases h
  | cons block blocks ih =>
    cases h with
    | head => exact hlength _
    | tail _ h => exact ih h

theorem length_link : (link encrypt previous blocks).length = blocks.length := by
  induction blocks generalizing previous with
  | nil => rfl
  | cons block blocks ih => exact congrArg (· + 1) ih

/-- Each link is undone by means of the one before it, which both sides know. -/
theorem unlink_link (hinverse : ∀ block, block.length = 16 → decrypt (encrypt block) = block)
    (hlength : ∀ block, (encrypt block).length = 16) (hprevious : previous.length = 16)
    (hblocks : ∀ block ∈ blocks, block.length = 16) :
    unlink decrypt previous (link encrypt previous blocks) = blocks := by
  induction blocks generalizing previous with
  | nil => rfl
  | cons block blocks ih =>
    rw [List.forall_mem_cons] at hblocks
    have hsum : (Bytes.xor block previous).length = 16 := by
      rw [Bytes.length_xor, hblocks.1, hprevious, Nat.min_self]
    have hle : block.length ≤ previous.length := Nat.le_of_eq (hblocks.1.trans hprevious.symm)
    rw [link, unlink, hinverse _ hsum, Bytes.xor_xor hle, ih (hlength _) hblocks.2]

theorem length_of_mem_chunks_fill {data block : Bytes} (h : block ∈ Bytes.chunks 16 (fill data)) :
    block.length = 16 := by
  refine Bytes.length_of_mem_chunksUpTo ?_ h
  rw [length_fill, Nat.mul_mod_right]

theorem length_encrypt (hlength : ∀ block, (encrypt block).length = 16) (iv data : Bytes) :
    (Chaining.encrypt encrypt iv data).length = 16 * (data.length / 16 + 1) := by
  rw [Chaining.encrypt, Bytes.length_flatten fun _ => length_of_mem_link hlength, length_link,
    ← Bytes.length_flatten fun _ => length_of_mem_chunks_fill, Bytes.flatten_chunks (by decide),
    length_fill]

/-- Data that was encrypted is decrypted to what it was, if the block cipher's blocks are. -/
theorem decrypt?_encrypt (hinverse : ∀ block, block.length = 16 → decrypt (encrypt block) = block)
    (hlength : ∀ block, (encrypt block).length = 16) (hiv : iv.length = 16) (data : Bytes) :
    decrypt? decrypt iv (Chaining.encrypt encrypt iv data) = some data := by
  have hwhole : (Chaining.encrypt encrypt iv data).length % 16 = 0 := by
    rw [length_encrypt hlength, Nat.mul_mod_right]
  rw [decrypt?, if_pos hwhole, Chaining.encrypt,
    Bytes.chunks_flatten (by decide) fun _ => length_of_mem_link hlength,
    unlink_link hinverse hlength hiv fun _ => length_of_mem_chunks_fill,
    Bytes.flatten_chunks (by decide), unfill?_fill]

end Cipher.Chaining

end KeyCustody
