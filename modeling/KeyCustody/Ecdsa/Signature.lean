import KeyCustody.Curve.P256
import KeyCustody.Der.Basic
import KeyCustody.Digest.Iterated
import KeyCustody.Digest.Sha256
/-! # ECDSA signatures

Signatures over P-256 with SHA-256. The secret multiplier of a signature is drawn from a generator that
is seeded with the key and the message, so that a signature depends on nothing else. -/

namespace KeyCustody.Ecdsa

open Curve Digest

/-- A public key: a point other than the point at infinity. -/
abbrev PublicKey := P256.Affine

/-- A private key: a number from 1 to the order less one. -/
structure PrivateKey where
  scalar : Nat
deriving DecidableEq, Repr

def PrivateKey.ofNat? (n : Nat) : Option PrivateKey :=
  if 0 < n ∧ n < P256.order then some ⟨n⟩ else none

def PrivateKey.publicKey? (k : PrivateKey) : Option PublicKey := P256.baseTimes k.scalar

def digestOf (message : Bytes) : Nat := Bytes.toNat (sha256.digest message) % P256.order

/-- The state of the generator of multipliers. -/
structure Generator where
  (key value : Bytes)

namespace Generator

def feed (g : Generator) (b : Bytes) : Generator :=
  let key := hmac sha256 g.key (g.value ++ b)
  ⟨key, hmac sha256 key g.value⟩

def start (key : PrivateKey) (digest : Nat) : Generator :=
  let secret := Bytes.ofNat 32 key.scalar ++ Bytes.ofNat 32 digest
  ((Generator.mk (List.replicate 32 0) (List.replicate 32 1)).feed (0 :: secret)).feed (1 :: secret)

/-- The first number in bounds. A number is out of bounds with probability `2 ^ -32`; `fuel` bounds the
number of attempts. -/
def next? : (fuel : Nat) → Generator → Option Nat
  | 0, _ => none
  | fuel + 1, g =>
    let value := hmac sha256 g.key g.value
    let n := Bytes.toNat value
    if 0 < n ∧ n < P256.order then some n else next? fuel ((Generator.mk g.key value).feed [0])

end Generator

structure Signature where
  (r s : Nat)
deriving DecidableEq, Repr

namespace Signature

def isSound (g : Signature) : Bool :=
  0 < g.r && g.r < P256.order && 0 < g.s && g.s < P256.order

def encode (g : Signature) : Bytes := (Der.sequence [Der.natural g.r, Der.natural g.s]).encode

def decode? (b : Bytes) : Option Signature := do
  match ← Der.members? b with
  | [r, s] =>
    let g : Signature := ⟨← r.natural?, ← s.natural?⟩
    if g.isSound then return g else none
  | _ => none

end Signature

def signWith? (key : PrivateKey) (digest multiplier : Nat) : Option Signature := do
  let point ← P256.baseTimes multiplier
  let r := point.x % P256.order
  let inverse := Number.powMod P256.order multiplier (P256.order - 2)
  let s := inverse * (digest + r * key.scalar) % P256.order
  let g : Signature := ⟨r, s⟩
  if g.isSound then return g else none

def signature? (key : PrivateKey) (message : Bytes) : Option Signature := do
  let digest := digestOf message
  let multiplier ← (Generator.start key digest).next? 100
  signWith? key digest multiplier

def sign? (key : PrivateKey) (message : Bytes) : Option Bytes := (signature? key message).map Signature.encode

/-- Whether a signature's first number is the coordinate of the point that its second one leads to. -/
def accepts (key : PublicKey) (message : Bytes) (g : Signature) : Bool :=
  let inverse := Number.powMod P256.order g.s (P256.order - 2)
  let u := digestOf message * inverse % P256.order
  let v := g.r * inverse % P256.order
  match P256.combine u v key with
  | some point => point.x % P256.order == g.r
  | none => false

def verify (key : PublicKey) (message signature : Bytes) : Bool :=
  (Signature.decode? signature).any (accepts key message)

end KeyCustody.Ecdsa
