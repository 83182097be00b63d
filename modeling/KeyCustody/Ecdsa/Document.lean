import KeyCustody.Ecdsa.Signature
import KeyCustody.Failure
import KeyCustody.KeyInfo.Plain
import KeyCustody.Pem.Block
import KeyCustody.Text.Characters
/-! # ECDSA keys as PEM documents

Both halves are PEM documents with blanks around them. A private key document may hold the public key
too, which must then be the one that belongs to the private key. -/

namespace KeyCustody.Ecdsa

open Der

def algorithm : Algorithm := ⟨Oid.ecPublicKey, some (oid Oid.p256)⟩

namespace PublicKey

def info (k : PublicKey) : PublicInfo := ⟨algorithm, 0, k.encode⟩

def document (k : PublicKey) : String := (Pem.Block.mk "PUBLIC KEY" k.info.encode).encode

def ofInfo? (i : PublicInfo) : Option PublicKey :=
  if isP256 i.algorithm ∧ i.unused = 0 then Curve.P256.Affine.decode? i.key else none

end PublicKey

namespace PrivateKey

def publicKeyTag : UInt8 := 0xA1

def curveTag : UInt8 := 0xA0

def element? (k : PrivateKey) : Option Element := do
  let point ← k.publicKey?
  return sequence [natural 1, octetString (Bytes.ofNat 32 k.scalar),
    ⟨publicKeyTag, (bitString point.encode).encode⟩]

def info? (k : PrivateKey) : Option PrivateInfo := do
  return ⟨algorithm, (← k.element?).encode, none⟩

def document? (k : PrivateKey) : Option String := do
  return (Pem.Block.mk "PRIVATE KEY" (← k.info?).encode).encode

/-- The members after the curve, which is any name of a curve if it is there: the algorithm of the
key says which one it is on. -/
def afterCurve? (members : List Element) : Option (List Element) :=
  match members with
  | e :: rest =>
    if PrivateInfo.beforePublicKey e then
      if e.tag = curveTag ∧ ((single? e.value).bind Element.oid?).isSome then
        some (rest.dropWhile PrivateInfo.beforePublicKey)
      else none
    else some members
  | [] => some []

def agrees (k : PrivateKey) (members : List Element) : Bool :=
  match members with
  | [] => true
  | [e] =>
    let held :=
      if e.tag = publicKeyTag then do wholeBytes? (← (← single? e.value).valueOf? Tag.bitString)
      else none
    held.isSome && ((k.publicKey?.map Curve.P256.Affine.encode) == held ||
      (k.publicKey?.map Curve.P256.Affine.encodeCompressed) == held)
  | _ => false

/-- A private key of 24 to 32 bytes. -/
def ofMembers? (b : Bytes) : Option PrivateKey := do
  match ← members? b with
  | version :: secret :: rest =>
    let secret ← secret.valueOf? Tag.octetString
    let rest ← afterCurve? rest
    let k ← PrivateKey.ofNat? (Bytes.toNat secret)
    if version.natural? = some 1 ∧ 24 ≤ secret.length ∧ secret.length ≤ 32 ∧ k.agrees rest then
      return k
    else none
  | _ => none

def ofInfo? (i : PrivateInfo) : Option PrivateKey :=
  if isP256 i.algorithm then ofMembers? i.key else none

end PrivateKey

/-- The contents of the block that a text consists of, if they are one sequence and stand under a given
label. -/
def contents? (label text : String) : Option Bytes := do
  let block ← Pem.decodeChars? (Text.trim text.toList)
  let e ← single? block.contents
  if block.label = label ∧ e.tag = Tag.sequence then return block.contents else none

def PublicKey.parse (text : String) : Outcome PublicKey :=
  Outcome.ofOption .ecdsaMalformed do
    PublicKey.ofInfo? (← PublicInfo.decode? (← contents? "PUBLIC KEY" text))

def PrivateKey.parse (text : String) : Outcome PrivateKey :=
  Outcome.ofOption .ecdsaMalformed do
    PrivateKey.ofInfo? (← PrivateInfo.decode? (← contents? "PRIVATE KEY" text))

end KeyCustody.Ecdsa
