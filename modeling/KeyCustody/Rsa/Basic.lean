import KeyCustody.Bytes.Basic
import KeyCustody.Number
/-! # RSA keys

Keys as numbers, what makes them acceptable, and the two maps between numbers below the modulus. -/

namespace KeyCustody.Rsa

/-- The number of binary digits; zero has none. -/
def bitLength (n : Nat) : Nat := if n = 0 then 0 else n.log2 + 1

structure PublicKey where
  (modulus exponent : Nat)
deriving DecidableEq, Repr

structure PrivateKey where
  publicKey : PublicKey
  exponent : Nat
  (prime1 prime2 : Nat)
deriving DecidableEq, Repr

namespace PublicKey

/-- An odd modulus of at most `maxBits` bits and an odd exponent from 3 to `2 ^ 33 - 1` below it. -/
def isSound (k : PublicKey) (maxBits : Nat) : Bool :=
  bitLength k.modulus ≤ maxBits && k.modulus % 2 == 1 && k.exponent % 2 == 1 && 2 ≤ k.exponent &&
    k.exponent < Nat.pow 2 33 && k.exponent < k.modulus

def size (k : PublicKey) : Nat := (bitLength k.modulus + 7) / 8

def apply (k : PublicKey) (n : Nat) : Nat := Number.powMod k.modulus n k.exponent

end PublicKey

def maxPublicBits : Nat := 16384

def maxPrivateBits : Nat := 4096

namespace PrivateKey

/-- Sound public numbers, a modulus that is the product of the primes, and exponents that are inverse
modulo one less than each. Nothing checks that the primes are prime. -/
def isSound (k : PrivateKey) : Bool :=
  k.publicKey.isSound maxPrivateBits && k.prime1 * k.prime2 == k.publicKey.modulus &&
    [k.prime1, k.prime2].all fun p => 1 < p && k.publicKey.exponent * k.exponent % (p - 1) == 1

def exponent1 (k : PrivateKey) : Nat := k.exponent % (k.prime1 - 1)

def exponent2 (k : PrivateKey) : Nat := k.exponent % (k.prime2 - 1)

def coefficient? (k : PrivateKey) : Option Nat := Number.invMod k.prime1 k.prime2

/-- The private map, from its values modulo the two primes where these have no common factor. -/
def powerOf (k : PrivateKey) (n : Nat) : Nat :=
  match k.coefficient? with
  | some coefficient =>
    let r1 := Number.powMod k.prime1 n k.exponent1
    let r2 := Number.powMod k.prime2 n k.exponent2
    let h := coefficient * (r1 + (k.prime1 - r2 % k.prime1)) % k.prime1
    r2 + h * k.prime2
  | none => Number.powMod k.publicKey.modulus n k.exponent

/-- The private map, unless the public map does not take its value back. -/
def root? (k : PrivateKey) (n : Nat) : Option Nat :=
  let m := k.powerOf n
  if n < k.publicKey.modulus ∧ k.publicKey.apply m = n then some m else none

end PrivateKey

end KeyCustody.Rsa
