import KeyCustody.Ecdsa.Document
import KeyCustody.Ed25519.Signature
import KeyCustody.Key.Pair
import KeyCustody.Rsa.Document
import KeyCustody.Rsa.Signature
/-! # What the halves of a key hold

RSA and ECDSA keys hold PEM documents, Ed25519 keys thirty-two bytes in hexadecimal digits. A key pair
is valid if its halves can be read and belong together, and keys sign and verify by what they hold. -/

namespace KeyCustody

namespace Ed25519

def bytesOf (half : Half) (text : String) : Outcome Bytes := do
  let b ← (Hex.decode text).mapError (Failure.hexText ("Ed25519 " ++ half.name ++ " key"))
  if b.length = 32 then return b else .error (.ed25519Length half b.length)

def publicBytes (text : String) : Outcome Bytes := do
  let b ← bytesOf .publicHalf text
  Outcome.require (Curve.Edwards25519.Point.decode? b).isSome .ed25519Point
  return b

def keyPair (seed : Bytes) : Outcome KeyPair :=
  KeyPair.make .ed25519 .ed25519 (Hex.encode (publicKey seed)) (Hex.encode seed)

end Ed25519

namespace Ecdsa

def keyPair (key : PrivateKey) : Outcome KeyPair := do
  let publicKey ← Outcome.ofOption .ecdsaMalformed key.publicKey?
  let document ← Outcome.ofOption .ecdsaMalformed key.document?
  KeyPair.make .ecdsa .ecdsa (PublicKey.document publicKey) document

end Ecdsa

namespace Rsa

def keyPair (key : PrivateKey) (scheme : Scheme) : Outcome KeyPair := do
  let document ← wellFormed .privateHalf key.document?
  KeyPair.make .rsa scheme key.publicKey.document document

/-- The public key in a text as a key, its half written anew. -/
def readPublic (text : String) (scheme : Scheme) : Outcome KeyPair := do
  let key ← PublicKey.parse text
  KeyPair.make .rsa scheme key.document ""

/-- The private key that a text consists of as a key pair, its halves written anew. -/
def readPrivate (text password : String) (scheme : Scheme) : Outcome KeyPair := do
  keyPair (← PrivateKey.unlock text password) scheme

end Rsa

namespace KeyPair

/-- The halves can be read and, if both are there, belong together. -/
def validateHalves (k : KeyPair) : Outcome Unit :=
  match k.keytype with
  | .rsa => do
    let publicKey ← Rsa.PublicKey.parse k.keyval.publicHalf
    if k.hasPrivate then
      let privateKey ← Rsa.PrivateKey.parse k.keyval.privateHalf
      Outcome.require (privateKey.publicKey == publicKey) .rsaMismatch
  | .ed25519 => do
    let publicKey ← Ed25519.publicBytes k.keyval.publicHalf
    if k.hasPrivate then
      let seed ← Ed25519.bytesOf .privateHalf k.keyval.privateHalf
      Outcome.require (Ed25519.publicKey seed == publicKey) .ed25519Mismatch
  | .ecdsa => do
    let publicKey ← Ecdsa.PublicKey.parse k.keyval.publicHalf
    if k.hasPrivate then
      let privateKey ← Ecdsa.PrivateKey.parse k.keyval.privateHalf
      Outcome.require (privateKey.publicKey? == some publicKey) .ecdsaMismatch

def validate (k : KeyPair) : Outcome Unit := do
  checkScheme k.keytype k.scheme
  k.validateHalves

def ofMetadata (m : Metadata) (expected : KeyType) : Outcome KeyPair := do
  if m.keytype ≠ expected then throw (.unexpectedKeyType expected m.keytype)
  let k ← KeyPair.make m.keytype m.scheme m.publicHalf ""
  k.validate
  return k

/-- The bytes of a signature. Only salted schemes use the salt. -/
def signBytes (k : KeyPair) (salt data : Bytes) : Outcome Bytes :=
  match k.keytype with
  | .rsa => do
    let key ← Rsa.PrivateKey.parse k.keyval.privateHalf
    match k.scheme with
    | .rsaPss => Outcome.ofOption .rsaSigning (Rsa.Pss.sign? key data salt)
    | .rsaPkcs1 => Outcome.ofOption .rsaSigning (Rsa.Pkcs1.sign? key data)
    | scheme => .error (.notRsaScheme scheme)
  | .ed25519 => do
    return Ed25519.sign (← Ed25519.bytesOf .privateHalf k.keyval.privateHalf) data
  | .ecdsa => do
    let key ← Ecdsa.PrivateKey.parse k.keyval.privateHalf
    Outcome.ofOption .ecdsaSigning (Ecdsa.sign? key data)

def sign (k : KeyPair) (salt data : Bytes) : Outcome Signature := do
  if !k.hasPrivate then throw .publicOnlySign
  return ⟨k.keyid, Hex.encode (← k.signBytes salt data)⟩

def verify (k : KeyPair) (data : Bytes) (signature : Signature) : Outcome Bool := do
  let sig ← (Hex.decode signature.sig).mapError Failure.signatureText
  match k.keytype with
  | .rsa => do
    let key ← Rsa.PublicKey.parse k.keyval.publicHalf
    match k.scheme with
    | .rsaPss => return Rsa.Pss.verify key data sig
    | .rsaPkcs1 => return Rsa.Pkcs1.verify key data sig
    | scheme => .error (.notRsaScheme scheme)
  | .ed25519 => return Ed25519.verify (← Ed25519.publicBytes k.keyval.publicHalf) data sig
  | .ecdsa => return Ecdsa.verify (← Ecdsa.PublicKey.parse k.keyval.publicHalf) data sig

end KeyPair

end KeyCustody
