import KeyCustody.Decimal
import KeyCustody.Json.Fault
/-! # JSON numbers

A number is a natural number or a negative one where sixty-four bits hold it exactly, and a double
otherwise. Digits that no longer fit into sixty-four bits only count. -/

namespace KeyCustody.Json

inductive Number where
  /-- A natural number below `2 ^ 64`. -/
  | natural (n : Nat)
  /-- The negative of a number from 1 to `2 ^ 63`. -/
  | negative (n : Nat)
  | real (x : Float)

namespace Number

/-- The digits of a double in the shortest form that reads back: in place where the leading digit has
a weight from `10 ^ -5` to `10 ^ 15`, and otherwise with an exponent of at least two digits and its
sign. -/
def realText (x : Float) : String :=
  let bits := x.toBits.toNat
  let sign := if bits / Nat.pow 2 63 = 1 then "-" else ""
  if bits % Nat.pow 2 63 = 0 then sign ++ "0.0"
  else
    let s := Decimal.shortest (bits % Nat.pow 2 63)
    let ds := Decimal.digits s.digits
    let leading := s.power + ds.length - 1
    let chars :=
      if 0 ≤ s.power ∧ leading ≤ 15 then ds ++ List.replicate s.power.toNat '0' ++ ['.', '0']
      else if 0 ≤ leading ∧ leading ≤ 15 then
        ds.take (leading.toNat + 1) ++ '.' :: ds.drop (leading.toNat + 1)
      else if -5 ≤ leading ∧ leading < 0 then
        ['0', '.'] ++ List.replicate (-leading - 1).toNat '0' ++ ds
      else
        let rest := if ds.length > 1 then '.' :: ds.drop 1 else []
        let exponent := Decimal.digits leading.natAbs
        ds.take 1 ++ rest ++ ['e', if leading < 0 then '-' else '+'] ++
          List.replicate (2 - exponent.length) '0' ++ exponent
    sign ++ String.ofList chars

def text : Number → String
  | natural n => Decimal.text n
  | negative n => "-" ++ Decimal.text n
  | real x => realText x

def signed (positive : Bool) (x : Float) : Number := real (if positive then x else -x)

/-- A significand divided by `10 ^ exponent`, at most `10 ^ 308` at a time. -/
def divide : (fuel : Nat) → (x : Float) → (exponent : Nat) → Float
  | 0, x, _ => x
  | fuel + 1, x, exponent =>
    if exponent ≤ 308 then x / Float.ofScientific 1 false exponent
    else if x == 0.0 then x
    else divide fuel (x / 1e308) (exponent - 308)

/-- The double nearest to a significand times a power of ten, up to the error of one or two floating
point operations; none if it is too large. -/
def scale? (significand : Nat) (exponent : Int) : Option Float :=
  let x := (UInt64.ofNat significand).toFloat
  if exponent < 0 then some (divide 4 x exponent.natAbs)
  else if exponent ≤ 308 then
    let y := x * Float.ofScientific 1 false exponent.toNat
    if y.isInf then none else some y
  else if significand = 0 then some x
  else none

/-- The end of a number with a fractional part or an exponent. -/
def scaled (positive : Bool) (significand : Nat) (exponent : Int) : Reader Number := fun rest =>
  match scale? significand exponent with
  | some x => .ok (signed positive x, rest)
  | none => faultAt .numberOutOfRange rest

def digitValue (b : UInt8) : Nat := b.toNat - 0x30

def maxSignificand : Nat := Nat.pow 2 64 - 1

def exponentDigits (positive : Bool) (significand : Nat) (exponent : Int) (positivePower : Bool) :
    (power : Nat) → Reader Number
  | power, [] =>
    scaled positive significand (if positivePower then exponent + power else exponent - power) []
  | power, b :: rest =>
    if isDigit b then
      let power := power * 10 + digitValue b
      if power < Nat.pow 2 31 then
        exponentDigits positive significand exponent positivePower power rest
      else if significand ≠ 0 ∧ positivePower then faultAt .numberOutOfRange rest
      else .ok (signed positive 0.0, rest.dropWhile isDigit)
    else
      scaled positive significand (if positivePower then exponent + power else exponent - power)
        (b :: rest)

def afterExponentMark (positive : Bool) (significand : Nat) (exponent : Int) : Reader Number :=
  fun rest =>
    let (positivePower, rest) :=
      match rest with
      | 0x2B :: rest => (true, rest)
      | 0x2D :: rest => (false, rest)
      | rest => (true, rest)
    match rest with
    | [] => faultAt .endInValue []
    | b :: rest =>
      if isDigit b then
        exponentDigits positive significand exponent positivePower (digitValue b) rest
      else faultAt .invalidNumber rest

def exponentPart (positive : Bool) (significand : Nat) (exponent : Int) : Reader Number
  | 0x65 :: rest => afterExponentMark positive significand exponent rest
  | 0x45 :: rest => afterExponentMark positive significand exponent rest
  | rest => scaled positive significand exponent rest

/-- The digits after the point. `exponent` is the weight of the last digit taken so far, and `isFirst`
says that none was read after the point. -/
def fraction (positive : Bool) : (significand : Nat) → (exponent : Int) → (isFirst : Bool) →
    Reader Number
  | significand, exponent, isFirst, [] =>
    if isFirst then faultPast .endInValue [] else exponentPart positive significand exponent []
  | significand, exponent, isFirst, b :: rest =>
    if isDigit b then
      let next := significand * 10 + digitValue b
      if next ≤ maxSignificand then fraction positive next (exponent - 1) false rest
      else exponentPart positive significand exponent (rest.dropWhile isDigit)
    else if isFirst then faultPast .invalidNumber (b :: rest)
    else exponentPart positive significand exponent (b :: rest)

/-- What follows the digits before the point, of which the last `exponent` only count. -/
def fractionPart (positive : Bool) (significand : Nat) (exponent : Nat) : Reader Number
  | 0x2E :: rest => fraction positive significand exponent true rest
  | rest => exponentPart positive significand exponent rest

/-- The digits before the point that no longer fit, of which `count` have been read. -/
def longInteger (positive : Bool) (significand : Nat) : (count : Nat) → Reader Number
  | count, [] => fractionPart positive significand count []
  | count, b :: rest =>
    if isDigit b then longInteger positive significand (count + 1) rest
    else fractionPart positive significand count (b :: rest)

/-- A whole number, unless a fraction or an exponent follows. Zero with a minus sign is a double. -/
def wholeNumber (positive : Bool) (significand : Nat) : Reader Number := fun rest =>
  match rest with
  | 0x2E :: _ => fractionPart positive significand 0 rest
  | 0x65 :: _ => exponentPart positive significand 0 rest
  | 0x45 :: _ => exponentPart positive significand 0 rest
  | _ =>
    if positive then .ok (natural significand, rest)
    else if 1 ≤ significand ∧ significand ≤ Nat.pow 2 63 then .ok (negative significand, rest)
    else .ok (signed false (UInt64.ofNat significand).toFloat, rest)

def integerDigits (positive : Bool) : (significand : Nat) → Reader Number
  | significand, [] => wholeNumber positive significand []
  | significand, b :: rest =>
    if isDigit b then
      let next := significand * 10 + digitValue b
      if next ≤ maxSignificand then integerDigits positive next rest
      else longInteger positive significand 0 (b :: rest)
    else wholeNumber positive significand (b :: rest)

def unsigned (positive : Bool) : Reader Number
  | [] => faultAt .endInValue []
  | 0x30 :: rest =>
    match rest with
    | b :: _ =>
      if isDigit b then faultPast .invalidNumber rest else wholeNumber positive 0 rest
    | [] => wholeNumber positive 0 []
  | b :: rest =>
    if isDigit b then integerDigits positive (digitValue b) rest else faultAt .invalidNumber rest

def read : Reader Number
  | 0x2D :: rest => unsigned false rest
  | rest => unsigned true rest

end Number

end KeyCustody.Json
