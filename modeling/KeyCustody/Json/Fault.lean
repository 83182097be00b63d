import KeyCustody.Bytes.Basic
import KeyCustody.Decimal
/-! # Faults in JSON text

What is wrong with a text and where. While a text is read, a place is the number of bytes that are
left; in messages it is a line and the number of bytes before it on that line, both of which are
counted from the start of the text. -/

namespace KeyCustody.Json

inductive Reason where
  | endInList
  | endInObject
  | endInString
  | endInValue
  | expectedColon
  | expectedCommaInList
  | expectedCommaInObject
  | expectedWord
  | expectedValue
  | invalidEscape
  | invalidNumber
  | numberOutOfRange
  | invalidText
  | controlCharacter
  | keyNotString
  | loneSurrogate
  | unfinishedSurrogate
  | trailingComma
  | trailingText
  | tooDeep
  /-- The text is well formed, but it is not the data that was asked for. -/
  | data (message : String)
deriving DecidableEq, Repr

def Reason.message : Reason → String
  | endInList => "EOF while parsing a list"
  | endInObject => "EOF while parsing an object"
  | endInString => "EOF while parsing a string"
  | endInValue => "EOF while parsing a value"
  | expectedColon => "expected `:`"
  | expectedCommaInList => "expected `,` or `]`"
  | expectedCommaInObject => "expected `,` or `\x7d`"
  | expectedWord => "expected ident"
  | expectedValue => "expected value"
  | invalidEscape => "invalid escape"
  | invalidNumber => "invalid number"
  | numberOutOfRange => "number out of range"
  | invalidText => "invalid unicode code point"
  | controlCharacter => "control character (\\u0000-\\u001F) found while parsing a string"
  | keyNotString => "key must be a string"
  | loneSurrogate => "lone leading surrogate in hex escape"
  | unfinishedSurrogate => "unexpected end of hex escape"
  | trailingComma => "trailing comma"
  | trailingText => "trailing characters"
  | tooDeep => "recursion limit exceeded"
  | data message => message

/-- A reason and the number of bytes left after the place. -/
structure Fault where
  reason : Reason
  left : Nat
deriving DecidableEq, Repr

/-- A fault with its place in a text, both counted from the text's start. -/
structure PlacedFault where
  reason : Reason
  (line column : Nat)
deriving DecidableEq, Repr

def placeAfter (b : Bytes) : Nat × Nat :=
  (1 + b.count 0x0A, (b.reverse.takeWhile (· != 0x0A)).length)

def Fault.placed (text : Bytes) (f : Fault) : PlacedFault :=
  let (line, column) := placeAfter (text.take (text.length - f.left))
  ⟨f.reason, line, column⟩

def PlacedFault.message (f : PlacedFault) : String :=
  f.reason.message ++ " at line " ++ Decimal.text f.line ++ " column " ++ Decimal.text f.column

abbrev Reader (α : Type) := Bytes → Except Fault (α × Bytes)

/-- A fault in front of the bytes that are left. -/
def faultAt {α : Type} (reason : Reason) (rest : Bytes) : Except Fault α :=
  .error ⟨reason, rest.length⟩

/-- A fault after the first of the bytes that are left, if there is one. -/
def faultPast {α : Type} (reason : Reason) (rest : Bytes) : Except Fault α :=
  .error ⟨reason, rest.length - 1⟩

def isBlank (b : UInt8) : Bool := b == 0x20 || b == 0x0A || b == 0x09 || b == 0x0D

def skipBlanks (b : Bytes) : Bytes := b.dropWhile isBlank

def isDigit (b : UInt8) : Bool := 0x30 ≤ b && b ≤ 0x39

def word : (letters : Bytes) → Reader Unit
  | [], rest => .ok ((), rest)
  | _ :: _, [] => faultAt .endInValue []
  | letter :: letters, b :: rest =>
    if b = letter then word letters rest else faultAt .expectedWord rest

end KeyCustody.Json
