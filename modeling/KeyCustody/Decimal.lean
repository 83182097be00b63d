/-! # Decimal numerals

Natural numbers as decimal text, and the shortest decimal of a floating point number. A double stands for all
reals that round to it. Of the decimals among them the ones with the fewest digits are taken, and of these the
one nearest to the double. -/

namespace KeyCustody.Decimal

/-- The digits of a number, none of them a leading zero unless the number is zero. -/
def digits (n : Nat) : List Char := Nat.toDigits 10 n

def text (n : Nat) : String := String.ofList (digits n)

def digit? (c : Char) : Option Nat :=
  if '0' ≤ c ∧ c ≤ '9' then some (c.toNat - 48) else none

/-- The number that starts with `value` and goes on with the given digits. -/
def readFrom? (value : Nat) : List Char → Option Nat
  | [] => some value
  | c :: cs => do readFrom? (value * 10 + (← digit? c)) cs

/-- The number that a text of at least one digit spells; leading zeros are accepted. -/
def read? : List Char → Option Nat
  | [] => none
  | cs => readFrom? 0 cs

/-- The reals that round to a double, as quarters of the distance to the next double: its value, the
ends of the interval, whether the ends belong to it, and the power of two of a quarter. -/
structure Interval where
  (value low high : Nat)
  closed : Bool
  power : Int

/-- The interval of a finite double by its bits, the sign left out. -/
def Interval.ofBits (bits : Nat) : Interval :=
  let fraction := bits % Nat.pow 2 52
  let biased := bits / Nat.pow 2 52 % Nat.pow 2 11
  let significand := if biased = 0 then fraction else fraction + Nat.pow 2 52
  let power : Int := (max biased 1 : Nat) - 1077
  let gap := if fraction = 0 ∧ biased > 1 then 1 else 2
  ⟨4 * significand, 4 * significand - gap, 4 * significand + 2, significand % 2 == 0, power⟩

/-- A decimal `digits * 10 ^ power`. -/
structure Scaled where
  digits : Nat
  power : Int
deriving DecidableEq, Repr

/-- The numbers of an interval and of a grid of decimals over one denominator: `unit` is the numerator
of a quarter and `step` that of the grid's step. -/
structure Grid where
  (unit step : Nat)

def Grid.of (i : Interval) (power : Int) : Grid :=
  ⟨Nat.pow 2 i.power.toNat * Nat.pow 10 (-power).toNat,
    Nat.pow 10 power.toNat * Nat.pow 2 (-i.power).toNat⟩

def Interval.holds (i : Interval) (g : Grid) (point : Nat) : Bool :=
  let x := point * g.step
  if i.closed then i.low * g.unit ≤ x && x ≤ i.high * g.unit
  else i.low * g.unit < x && x < i.high * g.unit

/-- The grid point next to the value that lies in the interval; of two the nearer. -/
def Interval.pointOn? (i : Interval) (power : Int) : Option Scaled :=
  let g := Grid.of i power
  let below := i.value * g.unit / g.step
  let above := below + 1
  let farther := 2 * (i.value * g.unit) < (below + above) * g.step ||
    (2 * (i.value * g.unit) == (below + above) * g.step && below % 2 == 0)
  let candidates := if farther then [below, above] else [above, below]
  (candidates.find? (i.holds g)).map fun point => ⟨point, power⟩

def Interval.leading (i : Interval) : Int :=
  let num := i.value * Nat.pow 2 i.power.toNat
  let den := Nat.pow 2 (-i.power).toNat
  if num ≥ den then (digits (num / den)).length - 1
  else
    let count := (digits (den / num)).length
    if den ≤ num * Nat.pow 10 (count - 1) then -((count : Int) - 1) else -(count : Int)

/-- A decimal without zeros at the end; `fuel` bounds their number. -/
def Scaled.trim : (fuel : Nat) → Scaled → Scaled
  | 0, s => s
  | fuel + 1, s =>
    if s.digits % 10 = 0 ∧ s.digits ≠ 0 then trim fuel ⟨s.digits / 10, s.power + 1⟩ else s

/-- The shortest decimal of a positive finite double. Seventeen digits always suffice. -/
def shortest (bits : Nat) : Scaled :=
  let i := Interval.ofBits bits
  let found := (List.range 17).findSome? fun (n : Nat) => i.pointOn? (i.leading - n)
  (found.getD ⟨0, 0⟩).trim 17

end KeyCustody.Decimal
