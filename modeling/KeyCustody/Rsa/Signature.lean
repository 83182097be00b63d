import KeyCustody.Digest.Sha256
import KeyCustody.Rsa.Basic
/-! # RSA signatures

The message's SHA-256 digest, encoded as a number below the modulus, under the private map: with a
fixed filling (`Pkcs1`) or with a salt and a mask (`Pss`). -/

namespace KeyCustody.Rsa

open Digest

def digestSize : Nat := 32

namespace Pkcs1

/-- What stands before a SHA-256 digest: the outline of a structure that names the hash. -/
def header : Bytes :=
  [0x30, 0x31, 0x30, 0x0d, 0x06, 0x09, 0x60, 0x86, 0x48, 0x01, 0x65, 0x03, 0x04, 0x02, 0x01, 0x05,
    0x00, 0x04, 0x20]

/-- The digest filled up to the size of the modulus by at least eight bytes. -/
def encode? (size : Nat) (message : Bytes) : Option Bytes :=
  let tail := header ++ sha256.digest message
  if size < tail.length + 11 then none
  else some ([0, 1] ++ List.replicate (size - tail.length - 3) 0xff ++ 0 :: tail)

def sign? (key : PrivateKey) (message : Bytes) : Option Bytes := do
  let encoded ← encode? key.publicKey.size message
  return Bytes.ofNat key.publicKey.size (← key.root? (Bytes.toNat encoded))

def verify (key : PublicKey) (message signature : Bytes) : Bool :=
  let s := Bytes.toNat signature
  signature.length == key.size && s < key.modulus &&
    encode? key.size message == some (Bytes.ofNat key.size (key.apply s))

end Pkcs1

namespace Pss

/-- So many bytes that depend on a seed. -/
def mask (seed : Bytes) (length : Nat) : Bytes :=
  ((List.range (length / digestSize + 1)).flatMap fun i =>
    sha256.digest (seed ++ Bytes.ofNat 4 i)).take length

def bound (message salt : Bytes) : Bytes :=
  sha256.digest (List.replicate 8 0 ++ sha256.digest message ++ salt)

def clearTop (count : Nat) : Bytes → Bytes
  | [] => []
  | b :: rest => UInt8.ofNat (b.toNat % Nat.pow 2 (8 - count)) :: rest

def encode? (bits : Nat) (message salt : Bytes) : Option Bytes :=
  let length := (bits + 7) / 8
  if length < digestSize + salt.length + 2 then none
  else
    let h := bound message salt
    let data := List.replicate (length - salt.length - digestSize - 2) 0 ++ 1 :: salt
    let masked := Bytes.xor data (mask h data.length)
    some (clearTop (8 * length - bits) masked ++ h ++ [0xbc])

/-- Whether a byte string encodes a message in `bits` bits, with a salt of the size of a digest. -/
def encodes (bits : Nat) (message encoded : Bytes) : Bool :=
  let length := (bits + 7) / 8
  let top := 8 * length - bits
  let masked := encoded.take (length - digestSize - 1)
  let h := (encoded.drop (length - digestSize - 1)).take digestSize
  let data := clearTop top (Bytes.xor masked (mask h masked.length))
  let filling := length - 2 * digestSize - 2
  2 * digestSize + 2 ≤ length && encoded.length == length && encoded.getLast? == some 0xbc &&
    clearTop top masked == masked && data.take (filling + 1) == List.replicate filling 0 ++ [1] &&
    bound message (data.drop (filling + 1)) == h

def sign? (key : PrivateKey) (message salt : Bytes) : Option Bytes := do
  let encoded ← encode? (bitLength key.publicKey.modulus - 1) message salt
  return Bytes.ofNat key.publicKey.size (← key.root? (Bytes.toNat encoded))

/-- If the encoding has one byte less than the modulus, the byte before it is not looked at. -/
def verify (key : PublicKey) (message signature : Bytes) : Bool :=
  let s := Bytes.toNat signature
  let bits := bitLength key.modulus - 1
  signature.length == key.size && s < key.modulus &&
    encodes bits message (Bytes.ofNat ((bits + 7) / 8) (key.apply s))

end Pss

end KeyCustody.Rsa
