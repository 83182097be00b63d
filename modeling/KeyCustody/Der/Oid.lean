import KeyCustody.Der.Basic
/-! # Object identifiers

A path of numbers in a tree of names. Identifiers are compared as the bytes they are written as; a
number may have leading zero digits, so that two of them can read the same and differ. -/

namespace KeyCustody.Der

abbrev Oid := Bytes

namespace Oid

/-- The digits of a number in base 128, all but the last marked; `fuel` bounds their count. -/
def digits : (fuel n : Nat) → (mark : UInt8) → Bytes
  | 0, _, _ => []
  | fuel + 1, n, mark =>
    let last := UInt8.ofNat (n % 128) ||| mark
    if n < 128 then [last] else digits fuel (n / 128) 0x80 ++ [last]

def ofNumbers : List Nat → Oid
  | first :: second :: rest =>
    UInt8.ofNat (first * 40 + second) :: rest.flatMap fun n => digits (n.log2 + 1) n 0
  | _ => []

/-- The numbers written in base 128, where `sum` and `count` describe the digits before. A number
has at most thirty-two bits. -/
def numbersFrom? : (sum count : Nat) → Bytes → Option (List Nat)
  | _, 0, [] => some []
  | _, _, [] => none
  | sum, count, b :: rest =>
    let sum := sum * 128 + (b &&& 0x7F).toNat
    if count = 4 ∧ b &&& 0xF0 ≠ 0 then none
    else if b < 0x80 then do
      let tail ← numbersFrom? 0 0 rest
      return sum :: tail
    else numbersFrom? sum (count + 1) rest

/-- The numbers of an identifier of 3 to 39 bytes. -/
def numbers? : Oid → Option (List Nat)
  | [] => none
  | b :: rest =>
    if 3 ≤ rest.length + 1 ∧ rest.length + 1 ≤ 39 ∧ b < 120 then do
      let tail ← numbersFrom? 0 0 rest
      return b.toNat / 40 :: b.toNat % 40 :: tail
    else none

def text (oid : Oid) : String :=
  ".".intercalate (((numbers? oid).getD []).map fun n => String.ofList (Nat.toDigits 10 n))

end Oid

def Element.oid? (e : Element) : Option Oid := do
  let b ← e.valueOf? Tag.objectIdentifier
  let _ ← Oid.numbers? b
  return b

def oid (b : Oid) : Element := ⟨Tag.objectIdentifier, b⟩

structure Algorithm where
  name : Oid
  parameters : Option Element
deriving DecidableEq, Repr

namespace Algorithm

def element (a : Algorithm) : Element := sequence (oid a.name :: a.parameters.toList)

end Algorithm

def Element.algorithm? (e : Element) : Option Algorithm := do
  match ← e.members? with
  | [name] => return ⟨← name.oid?, none⟩
  | [name, parameters] => return ⟨← name.oid?, some parameters⟩
  | _ => none

end KeyCustody.Der
