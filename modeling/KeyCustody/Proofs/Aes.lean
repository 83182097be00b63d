import KeyCustody.Cipher.Aes
import Mathlib.Tactic.Common
/-! # Decryption undoes encryption

Each step of a round is undone by its counterpart: the substitution by its table of preimages, the turned
rows by turning them back, the mixed columns because mixing four times changes nothing, and the round
keys because they are added. Hence a key encrypts different blocks differently. -/

namespace KeyCustody.Cipher.Aes

private theorem substitutions_preimages :
    substitutions.toList.map (fun y => preimages.toList[y.toNat]?) =
      (List.range 256).map fun n => some (UInt8.ofNat n) := by
  decide +kernel

theorem unsubstitute_substitute (x : UInt8) : unsubstitute (substitute x) = x := by
  have hx : x.toNat < 256 := x.toNat_lt
  have h := congrArg (·[x.toNat]?) substitutions_preimages
  have hn : (List.range 256)[x.toNat]? = some x.toNat := by
    rw [List.getElem?_range hx]
  simp only [List.getElem?_map, hn, Option.map_some, UInt8.ofNat_toNat] at h
  unfold unsubstitute substitute
  rw [Array.getD_eq_getD_getElem?, Array.getD_eq_getD_getElem?, ← Array.getElem?_toList,
    ← Array.getElem?_toList]
  cases hy : substitutions.toList[x.toNat]? with
  | none => rw [hy] at h; cases h
  | some y =>
    rw [hy] at h
    simp only [Option.map_some, Option.some.injEq] at h
    rw [Option.getD_some, h, Option.getD_some]

/-! ## Sums of bytes -/

theorem xor_left_comm (x y z : UInt8) : x ^^^ (y ^^^ z) = y ^^^ (x ^^^ z) := by
  rw [← UInt8.xor_assoc, UInt8.xor_comm x y, UInt8.xor_assoc]

theorem xor_cancel_left (x y : UInt8) : x ^^^ (x ^^^ y) = y := by
  rw [← UInt8.xor_assoc, UInt8.xor_self, UInt8.zero_xor]

theorem xor_cancel_right (x y : UInt8) : x ^^^ y ^^^ y = x := by
  rw [UInt8.xor_assoc, UInt8.xor_self, UInt8.xor_zero]

private theorem toNat_high_bit (x : UInt8) : (x >>> 7).toNat = x.toNat / 128 := by
  rw [UInt8.toNat_shiftRight]
  exact Nat.shiftRight_eq_div_pow x.toNat 7

private theorem double_eq (x : UInt8) : double x = (x <<< 1) ^^^ (if x >>> 7 = 0 then 0 else 0x1b) := by
  have hzero : x >>> 7 = 0 ↔ x < 0x80 := by
    rw [← UInt8.toNat_inj, toNat_high_bit, UInt8.lt_iff_toNat_lt]
    change x.toNat / 128 = 0 ↔ x.toNat < 128
    omega
  simp only [double, hzero]
  split_ifs
  · rw [UInt8.xor_zero]
  · rfl

private theorem high_bit (x : UInt8) : x >>> 7 = 0 ∨ x >>> 7 = 1 := by
  have hbyte := x.toNat_lt
  simp only [← UInt8.toNat_inj, toNat_high_bit]
  change x.toNat / 128 = 0 ∨ x.toNat / 128 = 1
  omega

theorem double_xor (x y : UInt8) : double (x ^^^ y) = double x ^^^ double y := by
  rw [double_eq, double_eq x, double_eq y, UInt8.shiftRight_xor, UInt8.shiftLeft_xor]
  rcases high_bit x with hx | hx <;> rcases high_bit y with hy | hy
  · simp [hx, hy]
  · simp [hx, hy, UInt8.xor_assoc]
  · simp [hx, hy, UInt8.xor_assoc, UInt8.xor_comm 27]
  · simp [hx, hy, UInt8.xor_assoc, xor_left_comm 27]

/-! ## Columns and blocks -/

namespace Column

theorem xor_xor (x y : Column) : (x.xor y).xor y = x := by
  simp only [xor, xor_cancel_right]

/-- Mixing twice adds four times the columns' even and odd sums. -/
theorem mix_mix (x : Column) :
    x.mix.mix = ⟨x.a ^^^ double (double (x.a ^^^ x.c)), x.b ^^^ double (double (x.b ^^^ x.d)),
      x.c ^^^ double (double (x.a ^^^ x.c)), x.d ^^^ double (double (x.b ^^^ x.d))⟩ := by
  obtain ⟨a, b, c, d⟩ := x
  simp only [mix, double_xor, mk.injEq]
  refine ⟨?_, ?_, ?_, ?_⟩ <;>
    simp only [UInt8.xor_assoc, UInt8.xor_comm, xor_left_comm, UInt8.xor_self, xor_cancel_left,
      UInt8.xor_zero, UInt8.zero_xor]

theorem unmix_eq (x : Column) : x.unmix = x.mix.mix.mix := (congrArg mix (mix_mix x)).symm

theorem unmix_mix (x : Column) : x.mix.unmix = x := by
  rw [unmix_eq, mix_mix x.mix.mix, mix_mix]
  simp only [double_xor, xor_left_comm, UInt8.xor_comm, UInt8.xor_self, UInt8.xor_zero]

theorem unsubstitute_map (x : Column) : (x.map substitute).map unsubstitute = x := by
  simp only [map, unsubstitute_substitute]

end Column

namespace Block

theorem xor_xor (x y : Block) : (x.xor y).xor y = x := by
  simp only [xor, Column.xor_xor]

theorem unmix_map (x : Block) : (x.map Column.mix).map Column.unmix = x := by
  simp only [map, Column.unmix_mix]

theorem unsubstitute_map (x : Block) :
    (x.map (Column.map substitute)).map (Column.map unsubstitute) = x := by
  simp only [map, Column.unsubstitute_map]

theorem bytes_ofBytes {b : Bytes} (h : b.length = 16) : (ofBytes b).bytes = b := by
  match b, h with
  | [_, _, _, _, _, _, _, _, _, _, _, _, _, _, _, _], _ => rfl

theorem ofBytes_bytes (x : Block) : ofBytes x.bytes = x := rfl

end Block

/-! ## Round keys -/

private theorem blocksOf_ne_nil {columns : List Column} (h : 4 ≤ columns.length) :
    blocksOf columns ≠ [] := by
  match columns, h with
  | _ :: _ :: _ :: _ :: _, _ => simp [blocksOf]

private theorem length_columnsOf : (b : Bytes) → (columnsOf b).length = b.length / 4
  | _ :: _ :: _ :: _ :: rest => by
    have ih := length_columnsOf rest
    simp only [columnsOf, List.length_cons, ih]
    omega
  | [] => rfl
  | [_] => by simp [columnsOf]
  | [_, _] => by simp [columnsOf]
  | [_, _, _] => by simp [columnsOf]

theorem Key.exists_ofBytes? {b : Bytes} (h : b.length = 32) : ∃ key, Key.ofBytes? b = some key := by
  have hcolumns := length_columnsOf b
  simp only [Key.ofBytes?, h, Nat.reduceEqDiff, or_true, if_true]
  split
  · exact ⟨_, rfl⟩
  · refine absurd ‹_› (blocksOf_ne_nil ?_)
    rw [List.length_append]
    omega

/-! ## Rounds -/

theorem leave_enter (keys : List Block) (x : Block) : leave keys (enter keys x) = x := by
  have hrows : ∀ y : Block, y.shiftRows.unshiftRows = y := fun _ => rfl
  induction keys generalizing x with
  | nil => rw [enter.eq_def, leave.eq_def]
  | cons key keys ih =>
    rw [enter.eq_def, leave.eq_def]
    cases keys with
    | nil =>
      simp only [Block.xor_xor, hrows, Block.unsubstitute_map]
    | cons next keys =>
      simp only [ih, Block.xor_xor, Block.unmix_map, hrows, Block.unsubstitute_map]

namespace Key

theorem decrypt_encrypt (key : Key) {block : Bytes} (h : block.length = 16) :
    key.decrypt (key.encrypt block) = block := by
  unfold decrypt encrypt
  rw [Block.ofBytes_bytes, leave_enter, Block.xor_xor, Block.bytes_ofBytes h]

theorem encrypt_injective (key : Key) {x y : Bytes} (hx : x.length = 16) (hy : y.length = 16)
    (h : key.encrypt x = key.encrypt y) : x = y := by
  rw [← key.decrypt_encrypt hx, h, key.decrypt_encrypt hy]

end Key

end KeyCustody.Cipher.Aes
