import KeyCustody.Bytes.Basic
import KeyCustody.Number
/-! # The twisted Edwards curve of Ed25519

Points of `-x² + y² = 1 + d x² y²` over the prime field of `2 ^ 255 - 19` elements, computed on
quadruples `(x, y, z, t)` that stand for `(x / z, y / z)` with `t = x y / z`. A point is written as
its `y`, least significant byte first, with the parity of `x` in the top bit. -/

namespace KeyCustody.Curve.Edwards25519

open Number

def p : Nat := Nat.pow 2 255 - 19

def order : Nat := Nat.pow 2 252 + 27742317777372353535851937790883648493

/-- The constant of the curve's equation, `-121665 / 121666`. -/
def d : Nat := 0x52036cee2b6ffe738cc740797779e89800700a4d4141d8ab75eb4dca135978a3

def rootOfMinusOne : Nat := 0x2b8324804fc1df0b2b4d00993dfbd7a72f431806ad2fe478c4ee1b274a0ea0b0

structure Point where
  (x y z t : Nat)

namespace Point

def zero : Point := ⟨0, 1, 1, 0⟩

/-- The base point, whose `y` is 4/5. -/
def base : Point :=
  let x := 0x216936d3cd6e53fec0a4e231fdd6dc5c692cc7609525a7b2c9562d608f25d51a
  let y := 0x6666666666666666666666666666666666666666666666666666666666666658
  ⟨x, y, 1, x * y % p⟩

/-- The sum; the formula has no exceptions. -/
def add (a c : Point) : Point :=
  let u := (a.y + (p - a.x)) * (c.y + (p - c.x)) % p
  let v := (a.y + a.x) * (c.y + c.x) % p
  let w := a.t * c.t % p * (2 * d) % p
  let s := 2 * (a.z * c.z) % p
  let e := (v + (p - u)) % p
  let f := (s + (p - w)) % p
  let g := (s + w) % p
  let h := (v + u) % p
  ⟨e * f % p, g * h % p, f * g % p, e * h % p⟩

def double (a : Point) : Point :=
  let xx := a.x * a.x % p
  let yy := a.y * a.y % p
  let zz := 2 * (a.z * a.z) % p
  let h := (xx + yy) % p
  let sum := a.x + a.y
  let e := (h + (p - sum * sum % p)) % p
  let g := (xx + (p - yy)) % p
  let f := (zz + g) % p
  ⟨e * f % p, g * h % p, f * g % p, e * h % p⟩

def neg (a : Point) : Point := ⟨(p - a.x) % p, a.y, a.z, (p - a.t) % p⟩

def times (k : Nat) (a : Point) : Point :=
  (List.range (k.log2 + 1)).foldr
    (fun i acc => if k.testBit i then acc.double.add a else acc.double) zero

def encode (a : Point) : Bytes :=
  let inverse := powMod p a.z (p - 2)
  let x := a.x * inverse % p
  let y := a.y * inverse % p
  (Bytes.ofNat 32 (y + x % 2 * Nat.pow 2 255)).reverse

/-- A root of `u / v`, if there is one: a power of `u` and `v` is it up to a root of minus one. -/
def rootOfRatio (u v : Nat) : Option Nat :=
  let v3 := v * v % p * v % p
  let v7 := v3 * v3 % p * v % p
  let r := u * v3 % p * powMod p (u * v7) ((p - 5) / 8) % p
  let check := v * (r * r % p) % p
  if check = u % p then some r
  else if (check + u) % p = 0 then some (r * rootOfMinusOne % p)
  else none

/-- The point that thirty-two bytes stand for. A `y` that is not reduced is accepted, and so is
either parity of a zero `x`. -/
def decode? (b : Bytes) : Option Point :=
  let n := Bytes.toNat b.reverse
  let y := n % Nat.pow 2 255 % p
  let odd := n / Nat.pow 2 255 % 2
  let yy := y * y % p
  match rootOfRatio ((yy + (p - 1)) % p) ((d * yy + 1) % p) with
  | some r =>
    let x := if r % 2 = odd then r else (p - r) % p
    some ⟨x, y, 1, x * y % p⟩
  | none => none

end Point

end KeyCustody.Curve.Edwards25519
