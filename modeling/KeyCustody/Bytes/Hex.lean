import KeyCustody.Bytes.Basic
import KeyCustody.Text.Utf8
/-! # Hexadecimal text

Two lower case digits a byte when written; either case when read. Reading looks at the bytes of
the text: an odd number of them is refused first, then the leftmost one that is no digit. -/

namespace KeyCustody.Hex

inductive Fault where
  | oddLength
  /-- The byte at `index`, counted from zero, is no digit. -/
  | badDigit (byte : UInt8) (index : Nat)
deriving DecidableEq, Repr

def digit (n : UInt8) : Char := Char.ofNat (if n < 10 then 48 + n.toNat else 87 + n.toNat)

def digit? (b : UInt8) : Option UInt8 :=
  if 48 ≤ b ∧ b ≤ 57 then some (b - 48)
  else if 97 ≤ b ∧ b ≤ 102 then some (b - 87)
  else if 65 ≤ b ∧ b ≤ 70 then some (b - 55)
  else none

def encodeChars (b : Bytes) : List Char := b.flatMap fun x => [digit (x / 16), digit (x % 16)]

def encode (b : Bytes) : String := String.ofList (encodeChars b)

def nibble (byte : UInt8) (index : Nat) : Except Fault UInt8 :=
  match digit? byte with
  | some n => .ok n
  | none => .error (.badDigit byte index)

/-- The bytes of the digit pairs that start at `index`. -/
def decodePairs (index : Nat) : Bytes → Except Fault Bytes
  | high :: low :: rest => do
    let h ← nibble high index
    let l ← nibble low (index + 1)
    let tail ← decodePairs (index + 2) rest
    return (h * 16 + l) :: tail
  | _ => .ok []

def decodeBytes (b : Bytes) : Except Fault Bytes :=
  if b.length % 2 = 1 then .error .oddLength else decodePairs 0 b

def decode (text : String) : Except Fault Bytes := decodeBytes (Text.utf8 text)

end KeyCustody.Hex
