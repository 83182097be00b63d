import KeyCustody.Digest.Iterated
import KeyCustody.Digest.Sha256
/-! # Memory-hard password strengthening

scrypt: the key material of a cheap derivation is mixed through a table of its own successive
images, in an order that depends on the data, and then salts a second cheap derivation. -/

namespace KeyCustody.Digest.Scrypt

/-- Sixteen words, least significant byte first. -/
structure Cell where
  (x0 x1 x2 x3 x4 x5 x6 x7 x8 x9 x10 x11 x12 x13 x14 x15 : UInt32)

namespace Cell

def zero : Cell := ⟨0, 0, 0, 0, 0, 0, 0, 0, 0, 0, 0, 0, 0, 0, 0, 0⟩

/-- Combines the words of two cells one by one. -/
def zip (f : UInt32 → UInt32 → UInt32) (x y : Cell) : Cell :=
  ⟨f x.x0 y.x0, f x.x1 y.x1, f x.x2 y.x2, f x.x3 y.x3, f x.x4 y.x4, f x.x5 y.x5, f x.x6 y.x6,
    f x.x7 y.x7, f x.x8 y.x8, f x.x9 y.x9, f x.x10 y.x10, f x.x11 y.x11, f x.x12 y.x12,
    f x.x13 y.x13, f x.x14 y.x14, f x.x15 y.x15⟩

def xor (x y : Cell) : Cell := zip (· ^^^ ·) x y

/-- The words by rows instead of columns. -/
def transpose (x : Cell) : Cell :=
  ⟨x.x0, x.x4, x.x8, x.x12, x.x1, x.x5, x.x9, x.x13, x.x2, x.x6, x.x10, x.x14,
    x.x3, x.x7, x.x11, x.x15⟩

def rotate (x n : UInt32) : UInt32 := (x <<< n) ||| (x >>> (32 - n))

/-- Four words of which each is changed by the two before it, in turn. -/
def quarter (a b c d : UInt32) : UInt32 × UInt32 × UInt32 × UInt32 :=
  let b := b ^^^ rotate (a + d) 7
  let c := c ^^^ rotate (b + a) 9
  let d := d ^^^ rotate (c + b) 13
  let a := a ^^^ rotate (d + c) 18
  (a, b, c, d)

/-- One round down the columns, each of which starts at its diagonal word. -/
def columns (x : Cell) : Cell :=
  let (y0, y4, y8, y12) := quarter x.x0 x.x4 x.x8 x.x12
  let (y5, y9, y13, y1) := quarter x.x5 x.x9 x.x13 x.x1
  let (y10, y14, y2, y6) := quarter x.x10 x.x14 x.x2 x.x6
  let (y15, y3, y7, y11) := quarter x.x15 x.x3 x.x7 x.x11
  ⟨y0, y1, y2, y3, y4, y5, y6, y7, y8, y9, y10, y11, y12, y13, y14, y15⟩

/-- `count` pairs of rounds, one by columns and one by rows. -/
def rounds : (count : Nat) → Cell → Cell
  | 0, x => x
  | count + 1, x => rounds count x.columns.transpose.columns.transpose

/-- The core of the stream cipher Salsa20 with eight rounds. -/
def core (x : Cell) : Cell := zip (· + ·) x (rounds 4 x)

def wordBytes (x : UInt32) : Bytes :=
  [x.toUInt8, (x >>> 8).toUInt8, (x >>> 16).toUInt8, (x >>> 24).toUInt8]

def bytes (x : Cell) : Bytes :=
  [x.x0, x.x1, x.x2, x.x3, x.x4, x.x5, x.x6, x.x7, x.x8, x.x9, x.x10, x.x11, x.x12, x.x13, x.x14,
    x.x15].flatMap wordBytes

end Cell

def wordsOf : Bytes → List UInt32
  | a :: b :: c :: d :: rest =>
    (a.toUInt32 ||| (b.toUInt32 <<< 8) ||| (c.toUInt32 <<< 16) ||| (d.toUInt32 <<< 24)) ::
      wordsOf rest
  | _ => []

def cellsOf : List UInt32 → List Cell
  | x0 :: x1 :: x2 :: x3 :: x4 :: x5 :: x6 :: x7 :: x8 :: x9 :: x10 :: x11 :: x12 :: x13 :: x14 ::
      x15 :: rest =>
    ⟨x0, x1, x2, x3, x4, x5, x6, x7, x8, x9, x10, x11, x12, x13, x14, x15⟩ :: cellsOf rest
  | _ => []

/-- Every cell passed through the core together with the image of the cell before it; images at
even places come first. -/
def shuffle : (last : Cell) → List Cell → List Cell × List Cell
  | _, [] => ([], [])
  | last, x :: xs =>
    let y := (last.xor x).core
    let (odd, even) := shuffle y xs
    (y :: even, odd)

def mixBlock (block : List Cell) : List Cell :=
  let (even, odd) := shuffle (block.getLast?.getD Cell.zero) block
  even ++ odd

/-- The images of a block under `mixBlock`, `count` of them, after those in `table`. -/
def fillTable : (count : Nat) → (table : Array (List Cell)) → List Cell → Array (List Cell) × List Cell
  | 0, table, block => (table, block)
  | count + 1, table, block => fillTable count (table.push block) (mixBlock block)

/-- The place in the table that a block names: the first two words of its last cell. -/
def place (block : List Cell) : Nat :=
  match block.getLast? with
  | some x => x.x0.toNat + x.x1.toNat * Nat.pow 2 32
  | none => 0

def lookUp (table : Array (List Cell)) : (count : Nat) → List Cell → List Cell
  | 0, block => block
  | count + 1, block =>
    let found := (table[place block % table.size]?).getD []
    lookUp table count (mixBlock (List.zipWith Cell.xor block found))

/-- A block mixed through a table of `cost` entries. -/
def mix (cost : Nat) (block : Bytes) : Bytes :=
  let (table, cells) := fillTable cost #[] (cellsOf (wordsOf block))
  (lookUp table cost cells).flatMap Cell.bytes

end Scrypt

/-- `length` bytes of key material from a password, with tables of `cost` entries of `128 * width`
bytes, `lanes` times. -/
def scrypt (password salt : Bytes) (cost width lanes length : Nat) : Bytes :=
  let blocks := pbkdf2 sha256 password salt 1 (128 * width * lanes)
  let mixed := (Bytes.chunks (128 * width) blocks).flatMap (Scrypt.mix cost)
  pbkdf2 sha256 password mixed 1 length

end KeyCustody.Digest
