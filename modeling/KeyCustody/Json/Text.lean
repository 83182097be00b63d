import KeyCustody.Json.Fault
import KeyCustody.Text.Utf8
/-! # JSON strings

Strings between double quotes. Quotes, backslashes and control characters are escaped when written;
any character may be escaped by its UTF-16 units when read. -/

namespace KeyCustody.Json

def hexUnit? (a b c d : UInt8) : Option Nat := do
  let digit (x : UInt8) : Option Nat :=
    if 0x30 ≤ x ∧ x ≤ 0x39 then some (x.toNat - 0x30)
    else if 0x41 ≤ x ∧ x ≤ 0x46 then some (x.toNat - 0x37)
    else if 0x61 ≤ x ∧ x ≤ 0x66 then some (x.toNat - 0x57)
    else none
  return (((← digit a) * 16 + (← digit b)) * 16 + (← digit c)) * 16 + (← digit d)

def hexUnit : Reader Nat
  | a :: b :: c :: d :: rest =>
    match hexUnit? a b c d with
    | some n => .ok (n, rest)
    | none => faultAt .invalidEscape rest
  | _ => faultAt .endInString []

def escapes : List (UInt8 × UInt8) :=
  [(0x22, 0x22), (0x5C, 0x5C), (0x2F, 0x2F), (0x62, 0x08), (0x66, 0x0C), (0x6E, 0x0A), (0x72, 0x0D),
    (0x74, 0x09)]

/-- The second of the two units of a character beyond U+FFFF, where `high` is the first. -/
def lowUnit (high : Nat) : Reader Nat
  | [] => faultAt .endInString []
  | b :: rest =>
    if b ≠ 0x5C then faultAt .unfinishedSurrogate rest
    else
      match rest with
      | [] => faultAt .endInString []
      | b :: rest =>
        if b ≠ 0x75 then faultAt .unfinishedSurrogate rest
        else do
          let (low, rest) ← hexUnit rest
          if 0xDC00 ≤ low ∧ low ≤ 0xDFFF then
            return ((high - 0xD800) * 0x400 + (low - 0xDC00) + 0x10000, rest)
          else faultAt .loneSurrogate rest

/-- The character that one or two units name. -/
def unitEscape : Reader Nat := fun rest => do
  let (n, rest) ← hexUnit rest
  if 0xDC00 ≤ n ∧ n ≤ 0xDFFF then faultAt .loneSurrogate rest
  else if 0xD800 ≤ n ∧ n ≤ 0xDBFF then lowUnit n rest
  else return (n, rest)

/-- What follows a backslash, as the bytes that it stands for. -/
def escape : Reader Bytes
  | [] => faultAt .endInString []
  | b :: rest =>
    if b = 0x75 then do
      let (n, rest) ← unitEscape rest
      return (String.utf8EncodeChar (Char.ofNat n), rest)
    else
      match escapes.lookup b with
      | some x => .ok ([x], rest)
      | none => faultAt .invalidEscape rest

/-- The bytes of a string up to the closing quote; `fuel` bounds the length of the text. -/
def stringBytes : (fuel : Nat) → Reader Bytes
  | 0, rest => faultAt .endInString rest
  | _ + 1, [] => faultAt .endInString []
  | fuel + 1, b :: rest =>
    if b = 0x22 then .ok ([], rest)
    else if b = 0x5C then do
      let (x, rest) ← escape rest
      let (tail, rest) ← stringBytes fuel rest
      return (x ++ tail, rest)
    else if b < 0x20 then faultAt .controlCharacter rest
    else do
      let (tail, rest) ← stringBytes fuel rest
      return (b :: tail, rest)

/-- A string after its opening quote. That its bytes are no text is noticed at the closing quote. -/
def stringBody : Reader String := fun rest => do
  let (b, rest) ← stringBytes (rest.length + 1) rest
  match Text.ofUtf8? b with
  | some s => return (s, rest)
  | none => faultAt .invalidText (0x22 :: rest)

def escapedChar (c : Char) : List Char :=
  if c = '"' then ['\\', '"']
  else if c = '\\' then ['\\', '\\']
  else if c = '\x08' then ['\\', 'b']
  else if c = '\x0c' then ['\\', 'f']
  else if c = '\n' then ['\\', 'n']
  else if c = '\r' then ['\\', 'r']
  else if c = '\t' then ['\\', 't']
  else if c.toNat < 0x20 then
    ['\\', 'u', '0', '0', Nat.digitChar (c.toNat / 16), Nat.digitChar (c.toNat % 16)]
  else [c]

def quotedChars (s : String) : List Char := '"' :: s.toList.flatMap escapedChar ++ ['"']

end KeyCustody.Json
