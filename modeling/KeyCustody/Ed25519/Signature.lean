import KeyCustody.Curve.Edwards25519
import KeyCustody.Digest.Sha512
/-! # Ed25519 signatures

The private key is a seed of thirty-two bytes. Its digest gives the secret multiplier and the bytes
from which, with a message, the multiplier of a signature is made. -/

namespace KeyCustody.Ed25519

open Curve Curve.Edwards25519 Digest

/-- The number that bytes spell, least significant byte first. -/
def number (b : Bytes) : Nat := Bytes.toNat b.reverse

def scalarBytes (n : Nat) : Bytes := (Bytes.ofNat 32 n).reverse

structure Expanded where
  multiplier : Nat
  nonceSeed : Bytes

/-- The first half of the digest with its three lowest bits cleared and the top bit set to the second
highest place, and the other half as it is. -/
def expand (seed : Bytes) : Expanded :=
  let h := sha512.digest seed
  let n := number (h.take 32)
  ⟨n % Nat.pow 2 254 / 8 * 8 + Nat.pow 2 254, h.drop 32⟩

def publicKey (seed : Bytes) : Bytes := (Point.base.times (expand seed).multiplier).encode

/-- The number that ties a signature's point to the key and the message. -/
def challenge (point key message : Bytes) : Nat :=
  number (sha512.digest (point ++ key ++ message)) % order

structure Signature where
  point : Bytes
  scalar : Nat
deriving DecidableEq, Repr

namespace Signature

def encode (g : Signature) : Bytes := g.point ++ scalarBytes g.scalar

/-- Whatever the bytes of the point are, the number must be reduced. -/
def decode? (b : Bytes) : Option Signature :=
  let scalar := number (b.drop 32)
  if b.length = 64 ∧ scalar < order then some ⟨b.take 32, scalar⟩ else none

end Signature

def signature (seed message : Bytes) : Signature :=
  let secret := expand seed
  let key := publicKey seed
  let nonce := number (sha512.digest (secret.nonceSeed ++ message)) % order
  let point := (Point.base.times nonce).encode
  ⟨point, (nonce + challenge point key message * secret.multiplier) % order⟩

def sign (seed message : Bytes) : Bytes := (signature seed message).encode

def accepts (key message : Bytes) (g : Signature) : Bool :=
  (Point.decode? key).any fun a =>
    ((Point.base.times g.scalar).add (a.neg.times (challenge g.point key message))).encode == g.point

def verify (key message signature : Bytes) : Bool :=
  (Signature.decode? signature).any (accepts key message)

end KeyCustody.Ed25519
