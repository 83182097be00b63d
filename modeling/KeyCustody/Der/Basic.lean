import KeyCustody.Bytes.Basic
/-! # Elements of the distinguished encoding rules

Every value is a tag byte, a length in its shortest form of at most four bytes, and so many bytes.
Numbers above 30 have no one-byte tag and are refused, as are tags that name no type. -/

namespace KeyCustody.Der

structure Element where
  tag : UInt8
  value : Bytes
deriving DecidableEq, Repr

namespace Tag

def integer : UInt8 := 0x02
def bitString : UInt8 := 0x03
def octetString : UInt8 := 0x04
def null : UInt8 := 0x05
def objectIdentifier : UInt8 := 0x06
def sequence : UInt8 := 0x30

/-- The tags of the universal types. -/
def universal : List UInt8 :=
  [0x01, 0x02, 0x03, 0x04, 0x05, 0x06, 0x09, 0x0A, 0x0C, 0x12, 0x13, 0x14, 0x15, 0x16, 0x17, 0x18,
    0x1A, 0x1E, 0x30, 0x31]

def isKnown (tag : UInt8) : Bool :=
  universal.contains tag || (0x40 ≤ tag && tag &&& 0x1F != 0x1F)

/-- The class of tags that number the members of a sequence. -/
def isContext (tag : UInt8) : Bool := tag &&& 0xC0 == 0x80

def isConstructed (tag : UInt8) : Bool := tag &&& 0x20 == 0x20

def number (tag : UInt8) : Nat := (tag &&& 0x1F).toNat

end Tag

/-- The largest length, also of what is read or written as a whole. -/
def maxLength : Nat := 0x0FFFFFFF

def encodeLength (n : Nat) : Bytes :=
  if n < 0x80 then [UInt8.ofNat n]
  else
    let digits := Bytes.ofNatShort n
    UInt8.ofNat (0x80 + digits.length) :: digits

/-- A length in its shortest form, and what follows. -/
def decodeLength? : Bytes → Option (Nat × Bytes)
  | [] => none
  | b :: rest =>
    if b < 0x80 then some (b.toNat, rest)
    else
      let count := b.toNat - 0x80
      let n := Bytes.toNat (rest.take count)
      if 1 ≤ count ∧ count ≤ 4 ∧ count ≤ rest.length ∧ n ≤ maxLength ∧
          encodeLength n = b :: rest.take count then
        some (n, rest.drop count)
      else none

namespace Element

def encode (e : Element) : Bytes := e.tag :: encodeLength e.value.length ++ e.value

def decode? : Bytes → Option (Element × Bytes)
  | [] => none
  | tag :: rest => do
    let (n, rest) ← decodeLength? rest
    if Tag.isKnown tag ∧ n ≤ rest.length then some (⟨tag, rest.take n⟩, rest.drop n) else none

end Element

def elementsUpTo? : (count : Nat) → Bytes → Option (List Element)
  | 0, b => if b.isEmpty then some [] else none
  | count + 1, b =>
    if b.isEmpty then some []
    else do
      let (e, rest) ← Element.decode? b
      let tail ← elementsUpTo? count rest
      return e :: tail

def elements? (b : Bytes) : Option (List Element) := elementsUpTo? b.length b

/-- The single element that a byte string of at most `maxLength` bytes consists of. -/
def single? (b : Bytes) : Option Element := do
  let (e, rest) ← Element.decode? b
  if rest.isEmpty ∧ b.length ≤ maxLength then some e else none

def Element.valueOf? (e : Element) (tag : UInt8) : Option Bytes :=
  if e.tag = tag then some e.value else none

def Element.members? (e : Element) : Option (List Element) := do elements? (← e.valueOf? Tag.sequence)

def members? (b : Bytes) : Option (List Element) := do (← single? b).members?

def sequence (members : List Element) : Element :=
  ⟨Tag.sequence, members.flatMap Element.encode⟩

def octetString (b : Bytes) : Element := ⟨Tag.octetString, b⟩

def bitString (b : Bytes) : Element := ⟨Tag.bitString, 0 :: b⟩

def null : Element := ⟨Tag.null, []⟩

/-- The number of unused bits in the last byte of a bit string, and its bytes. -/
def bits? : Bytes → Option (Nat × Bytes)
  | [] => none
  | unused :: rest =>
    if unused ≤ 7 ∧ (unused = 0 ∨ rest ≠ []) then some (unused.toNat, rest) else none

def wholeBytes? (value : Bytes) : Option Bytes := do
  let (unused, b) ← bits? value
  if unused = 0 then some b else none

/-- The bytes of a natural number: as few as possible, and a zero first where the top bit would be
read as a sign. -/
def naturalBytes (n : Nat) : Bytes :=
  let digits := Bytes.ofNatShort n
  if digits.headD 0 < 0x80 then digits else 0 :: digits

def natural (n : Nat) : Element := ⟨Tag.integer, naturalBytes n⟩

def Element.natural? (e : Element) : Option Nat := do
  let b ← e.valueOf? Tag.integer
  if naturalBytes (Bytes.toNat b) = b then some (Bytes.toNat b) else none

def Element.naturalBelow? (e : Element) (bound : Nat) : Option Nat := do
  let n ← e.natural?
  if n < bound then some n else none

end KeyCustody.Der
