/-! # Byte strings

Byte strings as lists, with exclusive or, the big-endian reading of a natural number, the comparison used for
secrets and the pieces of one size that a string is cut into. -/

namespace KeyCustody

abbrev Bytes := List UInt8

namespace Bytes

/-- Bytewise exclusive or; the longer operand is cut. -/
def xor (a b : Bytes) : Bytes := List.zipWith (· ^^^ ·) a b

/-- The number that a byte string spells, most significant byte first. -/
def toNat (b : Bytes) : Nat := b.foldl (fun n x => n * 256 + x.toNat) 0

/-- The low `width` bytes of a number, most significant byte first. -/
def ofNat : (width n : Nat) → Bytes
  | 0, _ => []
  | width + 1, n => ofNat width (n / 256) ++ [UInt8.ofNat n]

/-- The number of bytes that a number needs; zero needs one. -/
def widthOf (n : Nat) : Nat := n.log2 / 8 + 1

def ofNatShort (n : Nat) : Bytes := ofNat (widthOf n) n

/-- Equality that looks at every byte: the lengths agree and the differences add up to nothing. -/
def sameSecret (a b : Bytes) : Bool :=
  a.length == b.length && (xor a b).foldl (· ||| ·) 0 == 0

@[simp] theorem length_ofNat (width n : Nat) : (ofNat width n).length = width := by
  induction width generalizing n with
  | zero => rfl
  | succ width ih => simp [ofNat, ih]

theorem toNat_concat (b : Bytes) (x : UInt8) : toNat (b ++ [x]) = toNat b * 256 + x.toNat := by
  simp [toNat]

theorem toNat_ofNat (width n : Nat) : toNat (ofNat width n) = n % Nat.pow 256 width := by
  rw [Nat.pow_eq]
  induction width generalizing n with
  | zero => simp [ofNat, toNat, Nat.mod_one]
  | succ width ih =>
    rw [ofNat, toNat_concat, ih, Nat.pow_succ, Nat.mul_comm (256 ^ width) 256, Nat.mod_mul]
    simp only [UInt8.toNat_ofNat']
    omega

/-! ## Masks -/

@[simp] theorem length_xor (a b : Bytes) : (xor a b).length = min a.length b.length := by
  simp [xor]

theorem xor_append {a b s r : Bytes} (h : a.length = s.length) :
    xor (a ++ b) (s ++ r) = xor a s ++ xor b r :=
  List.zipWith_append h

theorem xor_append_right {a s : Bytes} (h : a.length ≤ s.length) (r : Bytes) :
    xor a (s ++ r) = xor a s := by
  induction a generalizing s with
  | nil => rfl
  | cons x a ih =>
    cases s with
    | nil => simp at h
    | cons y s =>
      simp only [List.length_cons, Nat.add_le_add_iff_right] at h
      exact congrArg (List.cons (x ^^^ y)) (ih h)

theorem xor_xor {a s : Bytes} (h : a.length ≤ s.length) : xor (xor a s) s = a := by
  induction a generalizing s with
  | nil => rfl
  | cons x a ih =>
    cases s with
    | nil => simp at h
    | cons y s =>
      simp only [List.length_cons, Nat.add_le_add_iff_right] at h
      change (x ^^^ y ^^^ y) :: xor (xor a s) s = _
      rw [ih h, UInt8.xor_assoc, UInt8.xor_self, UInt8.xor_zero]

theorem xor_right_inj {a s t : Bytes} (hs : s.length = a.length) (ht : t.length = a.length) :
    xor a s = xor a t ↔ s = t := by
  constructor
  · intro h
    induction a generalizing s t with
    | nil => rw [List.length_eq_zero_iff.mp hs, List.length_eq_zero_iff.mp ht]
    | cons x a ih =>
      cases s with
      | nil => simp at hs
      | cons y s =>
        cases t with
        | nil => simp at ht
        | cons z t =>
          obtain ⟨hx, hrest⟩ := List.cons.inj h
          simp only [List.length_cons, Nat.add_right_cancel_iff] at hs ht
          rw [ih hs ht hrest, (UInt8.xor_right_inj x).mp hx]
  · rintro rfl
    rfl

/-! ## Comparison of secrets -/

private theorem foldl_or_eq_zero (b : Bytes) (x : UInt8) :
    b.foldl (· ||| ·) x = 0 ↔ x = 0 ∧ ∀ y ∈ b, y = 0 := by
  induction b generalizing x with
  | nil => simp
  | cons y b ih =>
    rw [List.foldl_cons, ih, UInt8.or_eq_zero_iff, List.forall_mem_cons, and_assoc]

private theorem xor_zero_iff {a b : Bytes} (h : a.length = b.length) :
    (∀ x ∈ xor a b, x = 0) ↔ a = b := by
  induction a generalizing b with
  | nil =>
    rw [List.length_nil] at h
    simp [xor, (List.length_eq_zero_iff.mp h.symm)]
  | cons x a ih =>
    cases b with
    | nil => simp at h
    | cons y b =>
      simp only [List.length_cons, Nat.add_right_cancel_iff] at h
      change (∀ z ∈ (x ^^^ y) :: xor a b, z = 0) ↔ _
      rw [List.forall_mem_cons, ih h, UInt8.xor_eq_zero_iff, List.cons.injEq]

theorem sameSecret_iff {a b : Bytes} : sameSecret a b = true ↔ a = b := by
  rw [sameSecret, Bool.and_eq_true, beq_iff_eq, beq_iff_eq]
  constructor
  · rintro ⟨hlength, hzero⟩
    exact (xor_zero_iff hlength).mp ((foldl_or_eq_zero _ _).mp hzero).2
  · rintro rfl
    exact ⟨rfl, (foldl_or_eq_zero _ _).mpr ⟨rfl, (xor_zero_iff rfl).mpr rfl⟩⟩

end Bytes

end KeyCustody

namespace KeyCustody.Bytes

/-- At most `count` pieces of `size` bytes. -/
def chunksUpTo (size : Nat) : (count : Nat) → Bytes → List Bytes
  | 0, _ => []
  | count + 1, b =>
    if b.isEmpty then [] else b.take size :: chunksUpTo size count (b.drop size)

/-- The pieces of `size` bytes that a byte string consists of. -/
def chunks (size : Nat) (b : Bytes) : List Bytes := chunksUpTo size b.length b

theorem flatten_chunksUpTo {size count : Nat} (hs : 0 < size) {b : Bytes} (h : b.length ≤ count) :
    (chunksUpTo size count b).flatten = b := by
  induction count generalizing b with
  | zero => simp_all [chunksUpTo]
  | succ count ih =>
    rw [chunksUpTo]
    split
    · simp_all
    · rw [List.flatten_cons, ih (by simp only [List.length_drop]; omega), List.take_append_drop]

theorem flatten_chunks {size : Nat} (hs : 0 < size) (b : Bytes) : (chunks size b).flatten = b :=
  flatten_chunksUpTo hs (Nat.le_refl _)

end KeyCustody.Bytes
