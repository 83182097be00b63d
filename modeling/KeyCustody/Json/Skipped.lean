import KeyCustody.Json.Text
/-! # Skipped JSON values

Values of members that nobody asked for. Only their outline is checked: strings may hold any bytes and
unpaired surrogates, numbers may be of any size, and nesting has no limit. -/

namespace KeyCustody.Json.Skipped

def stringBody : (fuel : Nat) → Reader Unit
  | 0, rest => faultAt .endInString rest
  | _ + 1, [] => faultAt .endInString []
  | fuel + 1, b :: rest =>
    if b = 0x22 then .ok ((), rest)
    else if b = 0x5C then
      match rest with
      | [] => faultAt .endInString []
      | b :: rest =>
        if b = 0x75 then do
          let (_, rest) ← hexUnit rest
          stringBody fuel rest
        else if (escapes.lookup b).isSome then stringBody fuel rest
        else faultAt .invalidEscape rest
    else if b < 0x20 then faultAt .controlCharacter (b :: rest)
    else stringBody fuel rest

def exponent (rest : Bytes) : Except Fault Bytes :=
  let rest :=
    match rest with
    | 0x2B :: rest => rest
    | 0x2D :: rest => rest
    | rest => rest
  match rest with
  | [] => faultAt .invalidNumber []
  | b :: rest => if isDigit b then .ok (rest.dropWhile isDigit) else faultAt .invalidNumber rest

def exponentPart : Bytes → Except Fault Bytes
  | 0x65 :: rest => exponent rest
  | 0x45 :: rest => exponent rest
  | rest => .ok rest

def fractionPart : Bytes → Except Fault Bytes
  | 0x2E :: rest =>
    match rest with
    | b :: _ =>
      if isDigit b then exponentPart (rest.dropWhile isDigit) else faultPast .invalidNumber rest
    | [] => faultPast .invalidNumber []
  | rest => exponentPart rest

def number : Bytes → Except Fault Bytes
  | [] => faultAt .invalidNumber []
  | 0x30 :: rest =>
    match rest with
    | b :: _ => if isDigit b then faultPast .invalidNumber rest else fractionPart rest
    | [] => .ok []
  | b :: rest =>
    if isDigit b then fractionPart (rest.dropWhile isDigit) else faultAt .invalidNumber rest

inductive Bracket where
  | list
  | object
deriving DecidableEq, Repr

/-- A value or the opening bracket of one. -/
def opening : Bytes → Except Fault (Option Bracket × Bytes)
  | [] => faultPast .endInValue []
  | b :: rest =>
    if b = 0x6E then do
      let (_, rest) ← word [0x75, 0x6C, 0x6C] rest
      return (none, rest)
    else if b = 0x74 then do
      let (_, rest) ← word [0x72, 0x75, 0x65] rest
      return (none, rest)
    else if b = 0x66 then do
      let (_, rest) ← word [0x61, 0x6C, 0x73, 0x65] rest
      return (none, rest)
    else if b = 0x2D then return (none, ← number rest)
    else if isDigit b then return (none, ← number (b :: rest))
    else if b = 0x22 then do
      let (_, rest) ← stringBody (rest.length + 1) rest
      return (none, rest)
    else if b = 0x5B then return (some .list, rest)
    else if b = 0x7B then return (some .object, rest)
    else faultPast .expectedValue (b :: rest)

/-- Closes as many of the brackets `inner :: outer` as the text closes. `afterValue` says whether a
comma may follow. The result is the bracket whose next value is due, with those around it, or nothing
if the last one was closed. -/
def closing : (fuel : Nat) → (afterValue : Bool) → (inner : Bracket) → (outer : List Bracket) →
    Bytes → Except Fault (Option (Bracket × List Bracket) × Bytes)
  | 0, _, _, _, rest => faultAt .endInValue rest
  | fuel + 1, afterValue, inner, outer, rest =>
    match skipBlanks rest with
    | [] => faultPast (match inner with | .list => .endInList | .object => .endInObject) []
    | b :: rest =>
      if b = 0x2C ∧ afterValue then .ok (some (inner, outer), rest)
      else if (b = 0x5D ∧ inner = .list) ∨ (b = 0x7D ∧ inner = .object) then
        match outer with
        | [] => .ok (none, rest)
        | next :: outer => closing fuel true next outer rest
      else if afterValue then
        faultPast (match inner with | .list => .expectedCommaInList | .object => .expectedCommaInObject)
          (b :: rest)
      else .ok (some (inner, outer), b :: rest)

def key (rest : Bytes) : Except Fault Bytes :=
  match skipBlanks rest with
  | [] => faultPast .endInObject []
  | b :: rest =>
    if b ≠ 0x22 then faultPast .keyNotString (b :: rest)
    else do
      let (_, rest) ← stringBody (rest.length + 1) rest
      match skipBlanks rest with
      | [] => faultPast .endInObject []
      | b :: rest => if b = 0x3A then return rest else faultPast .expectedColon (b :: rest)

/-- The rest of a value inside the brackets that are open; every round takes off at least one byte,
which bounds their number. -/
def values : (fuel : Nat) → (brackets : List Bracket) → Bytes → Except Fault Bytes
  | 0, _, rest => faultAt .endInValue rest
  | fuel + 1, brackets, rest => do
    let (opened, rest) ← opening (skipBlanks rest)
    let next ←
      match opened, brackets with
      | some bracket, brackets => closing (rest.length + 1) false bracket brackets rest
      | none, bracket :: brackets => closing (rest.length + 1) true bracket brackets rest
      | none, [] => pure (none, rest)
    match next with
    | (none, rest) => return rest
    | (some (.list, outer), rest) => values fuel (.list :: outer) rest
    | (some (.object, outer), rest) => do
      let rest ← key rest
      values fuel (.object :: outer) rest

def value : Reader Unit := fun rest => do return ((), ← values (rest.length + 1) [] rest)

end KeyCustody.Json.Skipped
