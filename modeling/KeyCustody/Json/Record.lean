import KeyCustody.Json.Skipped
import KeyCustody.Json.Value
import KeyCustody.Text.Characters
/-! # Records in JSON

Readers for data of a known shape. A record stands either as an object, whose members may come in any
order and of which unknown ones are skipped, or as the list of its fields. A fault in the data, as
opposed to the text, is placed after what was read of it; one that concerns a whole record is placed
after its closing bracket, if that follows. -/

namespace KeyCustody.Json

def dataFault {α : Type} (message : String) (rest : Bytes) : Except Fault α :=
  faultAt (.data message) rest

def mismatch {α : Type} (found expected : String) (rest : Bytes) : Except Fault α :=
  dataFault ("invalid type: " ++ found ++ ", expected " ++ expected) rest

def Number.title : Number → String
  | natural n => "integer `" ++ Decimal.text n ++ "`"
  | negative n => "integer `-" ++ Decimal.text n ++ "`"
  | real x => "floating point `" ++ realText x ++ "`"

/-- The fault that some value stands where another kind of value was expected. The value is read
first, unless it has brackets. -/
def unexpected {α : Type} (expected : String) : Reader α
  | [] => faultPast .expectedValue []
  | b :: rest =>
    if b = 0x6E then do
      let (_, rest) ← word [0x75, 0x6C, 0x6C] rest
      mismatch "null" expected rest
    else if b = 0x74 then do
      let (_, rest) ← word [0x72, 0x75, 0x65] rest
      mismatch "boolean `true`" expected rest
    else if b = 0x66 then do
      let (_, rest) ← word [0x61, 0x6C, 0x73, 0x65] rest
      mismatch "boolean `false`" expected rest
    else if b = 0x2D ∨ isDigit b then do
      let (n, rest) ← Number.read (b :: rest)
      mismatch n.title expected rest
    else if b = 0x22 then do
      let (s, rest) ← stringBody rest
      mismatch ("string " ++ Text.quoted s) expected rest
    else if b = 0x5B then mismatch "sequence" expected (b :: rest)
    else if b = 0x7B then mismatch "map" expected (b :: rest)
    else faultPast .expectedValue (b :: rest)

/-- Reads by the first byte of the next value. -/
def byFirst {α : Type} (read : UInt8 → Reader α) : Reader α := fun rest =>
  match skipBlanks rest with
  | [] => faultPast .endInValue []
  | b :: rest => read b rest

/-- A string, called `expected` in messages. -/
def stringAs (expected : String) : Reader String := byFirst fun b rest =>
  if b = 0x22 then stringBody rest else unexpected expected (b :: rest)

def string : Reader String := stringAs "a string"

/-- A natural number below `bound`, of a kind called `title`. -/
def naturalBelow (bound : Nat) (title : String) : Reader Nat := byFirst fun b rest =>
  if b = 0x2D ∨ isDigit b then do
    let (n, rest) ← Number.read (b :: rest)
    match n with
    | .natural k =>
      if k < bound then return (k, rest)
      else dataFault ("invalid value: " ++ n.title ++ ", expected " ++ title) rest
    | .negative _ => dataFault ("invalid value: " ++ n.title ++ ", expected " ++ title) rest
    | .real _ => mismatch n.title title rest
  else unexpected title (b :: rest)

def optional {α : Type} (reader : Reader α) : Reader (Option α) := fun rest =>
  match skipBlanks rest with
  | 0x6E :: rest => do
    let (_, rest) ← word [0x75, 0x6C, 0x6C] rest
    return (none, rest)
  | rest => do
    let (x, rest) ← reader rest
    return (some x, rest)

def listOf {α : Type} (item : Reader α) : Reader (List α) := byFirst fun b rest =>
  if b = 0x5B then listBody item rest else unexpected "a sequence" (b :: rest)

def choice (names : List String) : String :=
  let marked := names.map fun name => "`" ++ name ++ "`"
  match marked with
  | [a] => a
  | [a, b] => a ++ " or " ++ b
  | _ => "one of " ++ ", ".intercalate marked

def named {α : Type} (names : List (String × α)) (expected : String) : Reader α := fun rest => do
  let (name, rest) ← stringAs expected rest
  match names.lookup name with
  | some x => return (x, rest)
  | none =>
    dataFault ("unknown variant `" ++ name ++ "`, expected " ++ choice (names.map Prod.fst)) rest

/-- One of the named values: its name, or an object whose only member has that name and is `null`. -/
def oneOf {α : Type} (names : List (String × α)) : Reader α := fun rest =>
  match skipBlanks rest with
  | [] => faultPast .endInValue []
  | b :: rest =>
    if b = 0x22 then named names "variant identifier" (b :: rest)
    else if b = 0x7B then do
      let (x, rest) ← named names "variant identifier" rest
      let (_, rest) ← colon rest
      let (_, rest) ← byFirst (fun b rest =>
        if b = 0x6E then word [0x75, 0x6C, 0x6C] rest else unexpected "unit" (b :: rest)) rest
      match skipBlanks rest with
      | [] => faultAt .endInObject []
      | b :: rest => if b = 0x7D then return (x, rest) else faultAt .expectedValue (b :: rest)
    else faultPast .expectedValue (b :: rest)

/-- A field of a record that is put together in a draft. -/
structure Field (Draft : Type) where
  name : String
  isFilled : Draft → Bool
  fill : Draft → Reader Draft

/-- A field kept in one place of the draft, which is empty until the field is read. -/
def Field.of {Draft α : Type} (name : String) (get : Draft → Option α) (reader : Reader α)
    (set : Draft → α → Draft) : Field Draft where
  name := name
  isFilled := fun d => (get d).isSome
  fill := fun d rest => do
    let (x, rest) ← reader rest
    return (set d x, rest)

/-- The shape of a record: its name, its fields in order, and how a draft becomes a record unless the
field at some place is missing. -/
structure Layout (Draft Record : Type) where
  title : String
  fields : List (Field Draft)
  empty : Draft
  build : Draft → Except Nat Record

namespace Layout

variable {Draft Record : Type}

/-- The outcome of reading the parts of a record: a draft, or a fault in the data. -/
abbrev Parts (Draft : Type) := Except String Draft

def readMembers (layout : Layout Draft Record) : (fuel : Nat) → (isFirst : Bool) → Draft →
    Reader (Parts Draft)
  | 0, _, _, rest => faultAt .endInObject rest
  | fuel + 1, isFirst, draft, rest => do
    match ← nextMember isFirst rest with
    | (false, rest) => return (.ok draft, rest)
    | (true, rest) =>
      let (key, rest) ← stringBody (rest.drop 1)
      match layout.fields.find? (·.name == key) with
      | none =>
        let (_, rest) ← colon rest
        let (_, rest) ← Skipped.value rest
        readMembers layout fuel false draft rest
      | some field =>
        if field.isFilled draft then return (.error ("duplicate field `" ++ key ++ "`"), rest)
        else
          let (_, rest) ← colon rest
          let (draft, rest) ← field.fill draft rest
          readMembers layout fuel false draft rest

def readItems : List (Field Draft) → (isFirst : Bool) → Draft → Reader Draft
  | [], _, draft, rest => .ok (draft, rest)
  | field :: fields, isFirst, draft, rest => do
    match ← nextItem isFirst rest with
    | (false, rest) => return (draft, rest)
    | (true, rest) =>
      let (draft, rest) ← field.fill draft rest
      readItems fields false draft rest

def pastClosing (bracket : UInt8) (rest : Bytes) : Bytes :=
  match skipBlanks rest with
  | b :: rest => if b = bracket then rest else b :: rest
  | [] => []

def endOfItems : Reader Unit := fun rest =>
  match skipBlanks rest with
  | [] => faultPast .endInList []
  | b :: rest =>
    if b = 0x5D then .ok ((), rest)
    else if b = 0x2C then
      match skipBlanks rest with
      | b :: rest =>
        if b = 0x5D then faultPast .trailingComma (b :: rest) else faultPast .trailingText (b :: rest)
      | [] => faultPast .trailingText []
    else faultPast .trailingText (b :: rest)

def size (layout : Layout Draft Record) : String :=
  match layout.fields.length with
  | 1 => "1 element"
  | n => Decimal.text n ++ " elements"

def read (layout : Layout Draft Record) : Reader Record := byFirst fun b rest =>
  if b = 0x7B then do
    let (parts, rest) ← layout.readMembers (rest.length + 1) true layout.empty rest
    let rest := pastClosing 0x7D rest
    match parts with
    | .error message => dataFault message rest
    | .ok draft =>
      match layout.build draft with
      | .ok record => return (record, rest)
      | .error missing =>
        let name := (layout.fields[missing]?.map Field.name).getD ""
        dataFault ("missing field `" ++ name ++ "`") rest
  else if b = 0x5B then do
    let (draft, rest) ← readItems layout.fields true layout.empty rest
    match layout.build draft with
    | .ok record => do
      let (_, rest) ← endOfItems rest
      return (record, rest)
    | .error missing =>
      dataFault ("invalid length " ++ Decimal.text missing ++ ", expected struct " ++ layout.title ++
        " with " ++ layout.size) (pastClosing 0x5D rest)
  else unexpected ("struct " ++ layout.title) (b :: rest)

end Layout

end KeyCustody.Json
