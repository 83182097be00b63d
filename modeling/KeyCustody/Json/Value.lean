import KeyCustody.Json.Number
import KeyCustody.Json.Text
/-! # JSON values

Values of any shape with their text, and the readers of lists and objects that other readers are made
of. Reading goes at most 128 brackets deep. -/

namespace KeyCustody.Json

/-- A value of any shape; the members of an object are in the order in which they stand. -/
inductive Value where
  | null
  | bool (b : Bool)
  | number (n : Number)
  | string (s : String)
  | list (items : List Value)
  | object (members : List (String × Value))

namespace Value

mutual

def chars : Value → List Char
  | null => "null".toList
  | bool true => "true".toList
  | bool false => "false".toList
  | number n => n.text.toList
  | string s => quotedChars s
  | list [] => ['[', ']']
  | list (item :: items) => '[' :: chars item ++ itemsChars items ++ [']']
  | object [] => ['\x7b', '\x7d']
  | object ((key, value) :: members) =>
    '\x7b' :: quotedChars key ++ ':' :: chars value ++ membersChars members ++ ['\x7d']

def itemsChars : List Value → List Char
  | [] => []
  | item :: items => ',' :: chars item ++ itemsChars items

def membersChars : List (String × Value) → List Char
  | [] => []
  | (key, value) :: members => ',' :: quotedChars key ++ ':' :: chars value ++ membersChars members

end

def text (v : Value) : String := String.ofList v.chars

end Value

/-- Whether another item follows in a list, and the text from it on; `isFirst` says that the bracket
was just opened. -/
def nextItem (isFirst : Bool) : Reader Bool := fun rest =>
  match skipBlanks rest with
  | [] => faultPast .endInList []
  | b :: rest =>
    if b = 0x5D then .ok (false, b :: rest)
    else if isFirst then .ok (true, b :: rest)
    else if b = 0x2C then
      match skipBlanks rest with
      | [] => faultPast .endInValue []
      | b :: rest => if b = 0x5D then faultPast .trailingComma (b :: rest) else .ok (true, b :: rest)
    else faultPast .expectedCommaInList (b :: rest)

/-- Whether another member follows in an object, and the text from its key on. -/
def nextMember (isFirst : Bool) : Reader Bool := fun rest =>
  match skipBlanks rest with
  | [] => faultPast .endInObject []
  | b :: rest =>
    if b = 0x7D then .ok (false, b :: rest)
    else if isFirst then
      if b = 0x22 then .ok (true, b :: rest) else faultPast .keyNotString (b :: rest)
    else if b = 0x2C then
      match skipBlanks rest with
      | [] => faultPast .endInValue []
      | b :: rest =>
        if b = 0x22 then .ok (true, b :: rest)
        else if b = 0x7D then faultPast .trailingComma (b :: rest)
        else faultPast .keyNotString (b :: rest)
    else faultPast .expectedCommaInObject (b :: rest)

def colon : Reader Unit := fun rest =>
  match skipBlanks rest with
  | [] => faultPast .endInObject []
  | b :: rest => if b = 0x3A then .ok ((), rest) else faultPast .expectedColon (b :: rest)

def items {α : Type} (item : Reader α) : (fuel : Nat) → (isFirst : Bool) → Reader (List α)
  | 0, _, rest => faultAt .endInList rest
  | fuel + 1, isFirst, rest => do
    match ← nextItem isFirst rest with
    | (false, rest) => return ([], rest)
    | (true, rest) =>
      let (x, rest) ← item rest
      let (tail, rest) ← items item fuel false rest
      return (x :: tail, rest)

def members {α : Type} (value : Reader α) : (fuel : Nat) → (isFirst : Bool) →
    Reader (List (String × α))
  | 0, _, rest => faultAt .endInObject rest
  | fuel + 1, isFirst, rest => do
    match ← nextMember isFirst rest with
    | (false, rest) => return ([], rest)
    | (true, rest) =>
      let (key, rest) ← stringBody (rest.drop 1)
      let (_, rest) ← colon rest
      let (x, rest) ← value rest
      let (tail, rest) ← members value fuel false rest
      return ((key, x) :: tail, rest)

/-- The items of a list with both brackets, of which the first has been read. -/
def listBody {α : Type} (item : Reader α) : Reader (List α) := fun rest => do
  let (xs, rest) ← items item (rest.length + 1) true rest
  return (xs, rest.drop 1)

namespace Value

/-- A value that is neither a list nor an object, or the first byte of one of those. -/
def simple (nested : UInt8 → Reader Value) : Reader Value := fun rest =>
  match skipBlanks rest with
  | [] => faultPast .endInValue []
  | b :: rest =>
    if b = 0x6E then do
      let (_, rest) ← word [0x75, 0x6C, 0x6C] rest
      return (.null, rest)
    else if b = 0x74 then do
      let (_, rest) ← word [0x72, 0x75, 0x65] rest
      return (.bool true, rest)
    else if b = 0x66 then do
      let (_, rest) ← word [0x61, 0x6C, 0x73, 0x65] rest
      return (.bool false, rest)
    else if b = 0x2D ∨ isDigit b then do
      let (n, rest) ← Number.read (b :: rest)
      return (.number n, rest)
    else if b = 0x22 then do
      let (s, rest) ← stringBody rest
      return (.string s, rest)
    else if b = 0x5B ∨ b = 0x7B then nested b rest
    else faultPast .expectedValue (b :: rest)

/-- A value with at most `depth` brackets around any part of it. -/
def read : (depth : Nat) → Reader Value
  | 0 => simple fun b rest => faultPast .tooDeep (b :: rest)
  | depth + 1 => simple fun b rest =>
    if b = 0x5B then do
      let (xs, rest) ← listBody (read depth) rest
      return (.list xs, rest)
    else do
      let (xs, rest) ← members (read depth) (rest.length + 1) true rest
      return (.object xs, rest.drop 1)

end Value

/-- The whole of a text by a reader; blanks may follow. -/
def whole {α : Type} (reader : Reader α) (text : Bytes) : Except PlacedFault α :=
  let result : Except Fault α := do
    let (x, rest) ← reader text
    match skipBlanks rest with
    | [] => return x
    | b :: rest => faultPast .trailingText (b :: rest)
  result.mapError (Fault.placed text)

def Value.parse (text : Bytes) : Except PlacedFault Value := whole (Value.read 127) text

/-- The last member of an object with a given key. -/
def Value.member? (key : String) : Value → Option Value
  | object members => members.reverse.lookup key
  | _ => none

end KeyCustody.Json
