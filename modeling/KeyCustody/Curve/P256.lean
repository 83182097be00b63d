import KeyCustody.Bytes.Basic
import KeyCustody.Number
/-! # The curve P-256

Points of `y² = x³ - 3x + b` over the prime field. Sums are computed on triples `(x, y, z)` that
stand for the point `(x / z², y / z³)`, with `z = 0` for the point at infinity. As bytes, a point is both
coordinates, or the first one with the parity of the second, or the first one alone for the smaller of the two
possible second ones. -/

namespace KeyCustody.Curve.P256

open Number

def p : Nat := 0xffffffff00000001000000000000000000000000ffffffffffffffffffffffff

def order : Nat := 0xffffffff00000000ffffffffffffffffbce6faada7179e84f3b9cac2fc632551

def b : Nat := 0x5ac635d8aa3a93e7b3ebbd55769886bc651d06b0cc53b0f63bce3c3e27d2604b

/-- A point other than the point at infinity. -/
structure Affine where
  (x y : Nat)
deriving DecidableEq, Repr

def base : Affine where
  x := 0x6b17d1f2e12c4247f8bce6e563a440f277037d812deb33a0f4a13945d898c296
  y := 0x4fe342e2fe1a7f9b8ee7eb4a7c0f9e162bce33576b315ececbb6406837bf51f5

def cubic (x : Nat) : Nat := (x * x % p * x + (p - 3) * x + b) % p

def isOnCurve (x y : Nat) : Bool := y * y % p == cubic x

def sub (x y : Nat) : Nat := (x + (p - y)) % p

/-- The root of the equation at `x` with the given parity. Since `p` is 3 modulo 4, a square has the
root that a power of it is. -/
def lift (x : Nat) (odd : Bool) : Option Affine :=
  let y := powMod p (cubic x) ((p + 1) / 4)
  if isOnCurve x y then
    some ⟨x, if (y % 2 == 1) == odd then y else (p - y) % p⟩
  else none

structure Triple where
  (x y z : Nat)

namespace Triple

def infinity : Triple := ⟨1, 1, 0⟩

def ofAffine (a : Affine) : Triple := ⟨a.x, a.y, 1⟩

def double (a : Triple) : Triple :=
  let zz := a.z * a.z % p
  let yy := a.y * a.y % p
  let s := 4 * (a.x * yy) % p
  let m := 3 * (sub a.x zz * (a.x + zz)) % p
  let x := sub (m * m % p) (2 * s % p)
  ⟨x, sub (m * sub s x % p) (8 * (yy * yy % p) % p), 2 * (a.y * a.z) % p⟩

def add (a c : Triple) : Triple :=
  if a.z = 0 then c
  else if c.z = 0 then a
  else
    let az := a.z * a.z % p
    let cz := c.z * c.z % p
    let u := a.x * cz % p
    let v := c.x * az % p
    let s := a.y * (cz * c.z % p) % p
    let t := c.y * (az * a.z % p) % p
    if u = v then
      if s = t then a.double else infinity
    else
      let h := sub v u
      let r := sub t s
      let hh := h * h % p
      let hhh := hh * h % p
      let w := u * hh % p
      let x := sub (sub (r * r % p) hhh) (2 * w % p)
      ⟨x, sub (r * sub w x % p) (s * hhh % p), a.z * c.z % p * h % p⟩

def times (k : Nat) (a : Triple) : Triple :=
  (List.range (k.log2 + 1)).foldr
    (fun i acc => if k.testBit i then acc.double.add a else acc.double) infinity

def toAffine? (a : Triple) : Option Affine :=
  if a.z = 0 then none
  else
    let inverse := powMod p a.z (p - 2)
    let square := inverse * inverse % p
    some ⟨a.x * square % p, a.y * (square * inverse % p) % p⟩

end Triple

def baseTimes (k : Nat) : Option Affine := ((Triple.ofAffine base).times k).toAffine?

def combine (k : Nat) (l : Nat) (a : Affine) : Option Affine :=
  (((Triple.ofAffine base).times k).add ((Triple.ofAffine a).times l)).toAffine?

end KeyCustody.Curve.P256

namespace KeyCustody.Curve.P256.Affine

def encode (a : Affine) : Bytes := 4 :: Bytes.ofNat 32 a.x ++ Bytes.ofNat 32 a.y

def encodeCompressed (a : Affine) : Bytes :=
  (if a.y % 2 = 1 then 3 else 2) :: Bytes.ofNat 32 a.x

def lift? (x : Nat) (odd : Bool) : Option Affine := if x < p then lift x odd else none

/-- The point with the smaller of its two possible second coordinates. -/
def smaller (a : Affine) : Affine := ⟨a.x, min a.y (p - a.y)⟩

def decode? (b : Bytes) : Option Affine :=
  match b with
  | [] => none
  | tag :: rest =>
    let x := Bytes.toNat (rest.take 32)
    if tag = 4 then
      let y := Bytes.toNat (rest.drop 32)
      if rest.length = 64 ∧ x < p ∧ y < p ∧ isOnCurve x y then some ⟨x, y⟩ else none
    else if rest.length ≠ 32 then none
    else if tag = 2 then lift? x false
    else if tag = 3 then lift? x true
    else if tag = 5 then (lift? x false).map smaller
    else none

end KeyCustody.Curve.P256.Affine
