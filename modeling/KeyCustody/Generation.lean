import KeyCustody.Key.Material
import KeyCustody.Number
import KeyCustody.Program
import KeyCustody.Settings
/-! # New keys

Keys made of random bytes. Numbers are drawn until one fits; the number of draws is bounded so that
generation always ends, and the bounds are out of reach for bytes that are random. -/

namespace KeyCustody.Generation

def ed25519 : Action KeyPair := do
  Action.ofOutcome (Ed25519.keyPair (← Action.random 32))

/-- A private key by the first thirty-two bytes that spell one. -/
def ecdsaKey : (draws : Nat) → Action Ecdsa.PrivateKey
  | 0 => throw .noEntropy
  | draws + 1 => do
    match Ecdsa.PrivateKey.ofNat? (Bytes.toNat (← Action.random 32)) with
    | some key => return key
    | none => ecdsaKey draws

def ecdsa : Action KeyPair := do
  Action.ofOutcome (Ecdsa.keyPair (← ecdsaKey 4096))

/-- An odd number of `bits` bits, the top two of which are set. -/
def candidate (bits : Nat) (b : Bytes) : Nat :=
  let low := Bytes.toNat b % Nat.pow 2 (bits - 2)
  3 * Nat.pow 2 (bits - 2) + low / 2 * 2 + 1

def prime (bits : Nat) : (draws : Nat) → Action Nat
  | 0 => throw .rsaGeneration
  | draws + 1 => do
    let n := candidate bits (← Action.random ((bits + 7) / 8))
    if Number.isPrime n then return n else prime bits draws

def rsaExponent : Nat := 65537

/-- The private key of two primes, if they differ, their product has `bits` bits and the exponent has
an inverse. -/
def rsaKeyOf? (bits p q : Nat) : Option Rsa.PrivateKey := do
  let exponent ← Number.invMod ((p - 1) * (q - 1)) rsaExponent
  let key : Rsa.PrivateKey := ⟨⟨p * q, rsaExponent⟩, exponent, p, q⟩
  if p ≠ q ∧ Rsa.bitLength (p * q) = bits then return key else none

def rsaKey (bits : Nat) : (draws : Nat) → Action Rsa.PrivateKey
  | 0 => throw .rsaGeneration
  | draws + 1 => do
    let p ← prime (bits / 2) (200 * bits)
    let q ← prime (bits - bits / 2) (200 * bits)
    match rsaKeyOf? bits p q with
    | some key => return key
    | none => rsaKey bits draws

/-- A new RSA key. Below seventeen bits there is no modulus above the exponent. -/
def rsa (bits : Nat) (scheme : Scheme) (settings : Settings) : Action KeyPair := do
  Action.ofOutcome (settings.checkRsaBits bits)
  Action.ofOutcome (checkScheme .rsa scheme)
  if bits < 17 then throw .rsaGeneration
  let key ← rsaKey bits 1000
  Action.ofOutcome (Outcome.require key.isSound .rsaGeneration)
  Action.ofOutcome (Rsa.keyPair key scheme)

end KeyCustody.Generation
