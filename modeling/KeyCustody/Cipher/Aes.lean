import KeyCustody.Bytes.Basic
/-! # The AES block cipher

Blocks are four columns of four bytes. The round keys are used one after the other, and decryption
undoes the rounds from the inside out, so that each of its steps faces the step that it undoes. -/

namespace KeyCustody.Cipher.Aes

structure Column where
  (a b c d : UInt8)
deriving DecidableEq, Repr

structure Block where
  (c0 c1 c2 c3 : Column)
deriving DecidableEq, Repr

/-- The substitution of each byte: its inverse in the field of 256 elements under an affine map. -/
def substitutions : Array UInt8 := #[
  0x63, 0x7c, 0x77, 0x7b, 0xf2, 0x6b, 0x6f, 0xc5, 0x30, 0x01, 0x67, 0x2b, 0xfe, 0xd7, 0xab, 0x76,
  0xca, 0x82, 0xc9, 0x7d, 0xfa, 0x59, 0x47, 0xf0, 0xad, 0xd4, 0xa2, 0xaf, 0x9c, 0xa4, 0x72, 0xc0,
  0xb7, 0xfd, 0x93, 0x26, 0x36, 0x3f, 0xf7, 0xcc, 0x34, 0xa5, 0xe5, 0xf1, 0x71, 0xd8, 0x31, 0x15,
  0x04, 0xc7, 0x23, 0xc3, 0x18, 0x96, 0x05, 0x9a, 0x07, 0x12, 0x80, 0xe2, 0xeb, 0x27, 0xb2, 0x75,
  0x09, 0x83, 0x2c, 0x1a, 0x1b, 0x6e, 0x5a, 0xa0, 0x52, 0x3b, 0xd6, 0xb3, 0x29, 0xe3, 0x2f, 0x84,
  0x53, 0xd1, 0x00, 0xed, 0x20, 0xfc, 0xb1, 0x5b, 0x6a, 0xcb, 0xbe, 0x39, 0x4a, 0x4c, 0x58, 0xcf,
  0xd0, 0xef, 0xaa, 0xfb, 0x43, 0x4d, 0x33, 0x85, 0x45, 0xf9, 0x02, 0x7f, 0x50, 0x3c, 0x9f, 0xa8,
  0x51, 0xa3, 0x40, 0x8f, 0x92, 0x9d, 0x38, 0xf5, 0xbc, 0xb6, 0xda, 0x21, 0x10, 0xff, 0xf3, 0xd2,
  0xcd, 0x0c, 0x13, 0xec, 0x5f, 0x97, 0x44, 0x17, 0xc4, 0xa7, 0x7e, 0x3d, 0x64, 0x5d, 0x19, 0x73,
  0x60, 0x81, 0x4f, 0xdc, 0x22, 0x2a, 0x90, 0x88, 0x46, 0xee, 0xb8, 0x14, 0xde, 0x5e, 0x0b, 0xdb,
  0xe0, 0x32, 0x3a, 0x0a, 0x49, 0x06, 0x24, 0x5c, 0xc2, 0xd3, 0xac, 0x62, 0x91, 0x95, 0xe4, 0x79,
  0xe7, 0xc8, 0x37, 0x6d, 0x8d, 0xd5, 0x4e, 0xa9, 0x6c, 0x56, 0xf4, 0xea, 0x65, 0x7a, 0xae, 0x08,
  0xba, 0x78, 0x25, 0x2e, 0x1c, 0xa6, 0xb4, 0xc6, 0xe8, 0xdd, 0x74, 0x1f, 0x4b, 0xbd, 0x8b, 0x8a,
  0x70, 0x3e, 0xb5, 0x66, 0x48, 0x03, 0xf6, 0x0e, 0x61, 0x35, 0x57, 0xb9, 0x86, 0xc1, 0x1d, 0x9e,
  0xe1, 0xf8, 0x98, 0x11, 0x69, 0xd9, 0x8e, 0x94, 0x9b, 0x1e, 0x87, 0xe9, 0xce, 0x55, 0x28, 0xdf,
  0x8c, 0xa1, 0x89, 0x0d, 0xbf, 0xe6, 0x42, 0x68, 0x41, 0x99, 0x2d, 0x0f, 0xb0, 0x54, 0xbb, 0x16]

/-- The byte that `substitutions` takes to each byte. -/
def preimages : Array UInt8 := #[
  0x52, 0x09, 0x6a, 0xd5, 0x30, 0x36, 0xa5, 0x38, 0xbf, 0x40, 0xa3, 0x9e, 0x81, 0xf3, 0xd7, 0xfb,
  0x7c, 0xe3, 0x39, 0x82, 0x9b, 0x2f, 0xff, 0x87, 0x34, 0x8e, 0x43, 0x44, 0xc4, 0xde, 0xe9, 0xcb,
  0x54, 0x7b, 0x94, 0x32, 0xa6, 0xc2, 0x23, 0x3d, 0xee, 0x4c, 0x95, 0x0b, 0x42, 0xfa, 0xc3, 0x4e,
  0x08, 0x2e, 0xa1, 0x66, 0x28, 0xd9, 0x24, 0xb2, 0x76, 0x5b, 0xa2, 0x49, 0x6d, 0x8b, 0xd1, 0x25,
  0x72, 0xf8, 0xf6, 0x64, 0x86, 0x68, 0x98, 0x16, 0xd4, 0xa4, 0x5c, 0xcc, 0x5d, 0x65, 0xb6, 0x92,
  0x6c, 0x70, 0x48, 0x50, 0xfd, 0xed, 0xb9, 0xda, 0x5e, 0x15, 0x46, 0x57, 0xa7, 0x8d, 0x9d, 0x84,
  0x90, 0xd8, 0xab, 0x00, 0x8c, 0xbc, 0xd3, 0x0a, 0xf7, 0xe4, 0x58, 0x05, 0xb8, 0xb3, 0x45, 0x06,
  0xd0, 0x2c, 0x1e, 0x8f, 0xca, 0x3f, 0x0f, 0x02, 0xc1, 0xaf, 0xbd, 0x03, 0x01, 0x13, 0x8a, 0x6b,
  0x3a, 0x91, 0x11, 0x41, 0x4f, 0x67, 0xdc, 0xea, 0x97, 0xf2, 0xcf, 0xce, 0xf0, 0xb4, 0xe6, 0x73,
  0x96, 0xac, 0x74, 0x22, 0xe7, 0xad, 0x35, 0x85, 0xe2, 0xf9, 0x37, 0xe8, 0x1c, 0x75, 0xdf, 0x6e,
  0x47, 0xf1, 0x1a, 0x71, 0x1d, 0x29, 0xc5, 0x89, 0x6f, 0xb7, 0x62, 0x0e, 0xaa, 0x18, 0xbe, 0x1b,
  0xfc, 0x56, 0x3e, 0x4b, 0xc6, 0xd2, 0x79, 0x20, 0x9a, 0xdb, 0xc0, 0xfe, 0x78, 0xcd, 0x5a, 0xf4,
  0x1f, 0xdd, 0xa8, 0x33, 0x88, 0x07, 0xc7, 0x31, 0xb1, 0x12, 0x10, 0x59, 0x27, 0x80, 0xec, 0x5f,
  0x60, 0x51, 0x7f, 0xa9, 0x19, 0xb5, 0x4a, 0x0d, 0x2d, 0xe5, 0x7a, 0x9f, 0x93, 0xc9, 0x9c, 0xef,
  0xa0, 0xe0, 0x3b, 0x4d, 0xae, 0x2a, 0xf5, 0xb0, 0xc8, 0xeb, 0xbb, 0x3c, 0x83, 0x53, 0x99, 0x61,
  0x17, 0x2b, 0x04, 0x7e, 0xba, 0x77, 0xd6, 0x26, 0xe1, 0x69, 0x14, 0x63, 0x55, 0x21, 0x0c, 0x7d]

def substitute (x : UInt8) : UInt8 := substitutions.getD x.toNat 0

def unsubstitute (x : UInt8) : UInt8 := preimages.getD x.toNat 0

def double (x : UInt8) : UInt8 := if x < 0x80 then x <<< 1 else (x <<< 1) ^^^ 0x1b

namespace Column

def xor (x y : Column) : Column := ⟨x.a ^^^ y.a, x.b ^^^ y.b, x.c ^^^ y.c, x.d ^^^ y.d⟩

def map (f : UInt8 → UInt8) (x : Column) : Column := ⟨f x.a, f x.b, f x.c, f x.d⟩

/-- The bytes moved up by one place. -/
def rotate (x : Column) : Column := ⟨x.b, x.c, x.d, x.a⟩

/-- The product with the circulant matrix of 2, 3, 1, 1. -/
def mix (x : Column) : Column :=
  let sum := x.a ^^^ x.b ^^^ x.c ^^^ x.d
  ⟨x.a ^^^ sum ^^^ double (x.a ^^^ x.b), x.b ^^^ sum ^^^ double (x.b ^^^ x.c),
    x.c ^^^ sum ^^^ double (x.c ^^^ x.d), x.d ^^^ sum ^^^ double (x.d ^^^ x.a)⟩

/-- The product with the inverse of that matrix, which is it times the circulant matrix of 5, 0, 4,
0. -/
def unmix (x : Column) : Column :=
  let even := double (double (x.a ^^^ x.c))
  let odd := double (double (x.b ^^^ x.d))
  mix ⟨x.a ^^^ even, x.b ^^^ odd, x.c ^^^ even, x.d ^^^ odd⟩

def bytes (x : Column) : Bytes := [x.a, x.b, x.c, x.d]

end Column

namespace Block

def xor (x y : Block) : Block :=
  ⟨x.c0.xor y.c0, x.c1.xor y.c1, x.c2.xor y.c2, x.c3.xor y.c3⟩

def map (f : Column → Column) (x : Block) : Block := ⟨f x.c0, f x.c1, f x.c2, f x.c3⟩

/-- Row `i` turned left by `i` places. -/
def shiftRows (x : Block) : Block :=
  ⟨⟨x.c0.a, x.c1.b, x.c2.c, x.c3.d⟩, ⟨x.c1.a, x.c2.b, x.c3.c, x.c0.d⟩,
    ⟨x.c2.a, x.c3.b, x.c0.c, x.c1.d⟩, ⟨x.c3.a, x.c0.b, x.c1.c, x.c2.d⟩⟩

/-- Row `i` turned right by `i` places. -/
def unshiftRows (x : Block) : Block :=
  ⟨⟨x.c0.a, x.c3.b, x.c2.c, x.c1.d⟩, ⟨x.c1.a, x.c0.b, x.c3.c, x.c2.d⟩,
    ⟨x.c2.a, x.c1.b, x.c0.c, x.c3.d⟩, ⟨x.c3.a, x.c2.b, x.c1.c, x.c0.d⟩⟩

def bytes (x : Block) : Bytes := x.c0.bytes ++ x.c1.bytes ++ x.c2.bytes ++ x.c3.bytes

end Block

/-- The columns of a byte string; up to three bytes left over are dropped. -/
def columnsOf : Bytes → List Column
  | a :: b :: c :: d :: rest => ⟨a, b, c, d⟩ :: columnsOf rest
  | _ => []

def blocksOf : List Column → List Block
  | c0 :: c1 :: c2 :: c3 :: rest => ⟨c0, c1, c2, c3⟩ :: blocksOf rest
  | _ => []

/-- The block of sixteen bytes, zero if there are fewer. -/
def Block.ofBytes (b : Bytes) : Block :=
  match blocksOf (columnsOf b) with
  | x :: _ => x
  | [] => ⟨⟨0, 0, 0, 0⟩, ⟨0, 0, 0, 0⟩, ⟨0, 0, 0, 0⟩, ⟨0, 0, 0, 0⟩⟩

/-- `count` further columns of the schedule of a key of `size` columns. `recent` holds the last
`size` columns, `phase` counts the columns since the last multiple of `size`, and `constant` is the
round constant to use next. -/
def extend (size : Nat) : (count phase : Nat) → (constant : UInt8) → (recent : List Column) →
    List Column
  | 0, _, _, _ => []
  | count + 1, phase, constant, recent =>
    match recent, recent.getLast? with
    | oldest :: others, some newest =>
      let turned :=
        if phase = 0 then (newest.rotate.map substitute).xor ⟨constant, 0, 0, 0⟩
        else if size > 6 ∧ phase = 4 then newest.map substitute
        else newest
      let column := oldest.xor turned
      let constant := if phase = 0 then double constant else constant
      column :: extend size count ((phase + 1) % size) constant (others ++ [column])
    | _, _ => []

/-- A key: the block added before the first round and the one added after each round. -/
structure Key where
  first : Block
  rounds : List Block

def Key.ofBytes? (b : Bytes) : Option Key :=
  let size := b.length / 4
  if b.length = 16 ∨ b.length = 24 ∨ b.length = 32 then
    let columns := columnsOf b
    match blocksOf (columns ++ extend size (4 * (size + 7) - size) 0 1 columns) with
    | first :: rounds => some ⟨first, rounds⟩
    | [] => none
  else none

/-- The rounds, the last of which does not mix the columns. -/
def enter : (keys : List Block) → Block → Block
  | [], x => x
  | [key], x => (x.map (Column.map substitute)).shiftRows.xor key
  | key :: keys, x =>
    enter keys (((x.map (Column.map substitute)).shiftRows.map Column.mix).xor key)

def leave : (keys : List Block) → Block → Block
  | [], x => x
  | [key], x => (x.xor key).unshiftRows.map (Column.map unsubstitute)
  | key :: keys, x =>
    (((leave keys x).xor key).map Column.unmix).unshiftRows.map (Column.map unsubstitute)

namespace Key

def encrypt (key : Key) (block : Bytes) : Bytes :=
  (enter key.rounds ((Block.ofBytes block).xor key.first)).bytes

def decrypt (key : Key) (block : Bytes) : Bytes :=
  ((leave key.rounds (Block.ofBytes block)).xor key.first).bytes

@[simp] theorem length_encrypt (key : Key) (block : Bytes) : (key.encrypt block).length = 16 := rfl

end Key

end KeyCustody.Cipher.Aes
