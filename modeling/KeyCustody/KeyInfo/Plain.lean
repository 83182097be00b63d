import KeyCustody.Der.Oid
import KeyCustody.Key.Kind
/-! # Key information

A private key with the algorithm it is for: `SEQUENCE { version, algorithm, OCTET STRING }`, with the
public key as a member numbered 1 if the version says so. Other numbered members are skipped. A public key with
the algorithm it is for: `SEQUENCE { algorithm, BIT STRING }`. -/

namespace KeyCustody

open Der

structure PrivateInfo where
  algorithm : Algorithm
  key : Bytes
  publicKey : Option Bytes
deriving DecidableEq, Repr

namespace PrivateInfo

def publicKeyTag : UInt8 := 0x81

def encode (i : PrivateInfo) : Bytes :=
  (sequence ([natural (if i.publicKey.isSome then 1 else 0), i.algorithm.element, octetString i.key] ++
    (i.publicKey.map fun b => Element.mk publicKeyTag (0 :: b)).toList)).encode

def beforePublicKey (e : Element) : Bool := Tag.isContext e.tag && Tag.number e.tag == 0

/-- A member that is skipped: it holds exactly one element. -/
def isExtension (e : Element) : Bool :=
  Tag.isContext e.tag && Tag.isConstructed e.tag && (single? e.value).isSome

def publicKeyOf? (members : List Element) : Option (Option Bytes) :=
  match members.dropWhile beforePublicKey with
  | [] => some none
  | e :: rest =>
    if Tag.isContext e.tag ∧ Tag.number e.tag = 1 then
      if e.tag = publicKeyTag ∧ rest.all isExtension then (wholeBytes? e.value).map some else none
    else if (e :: rest).all isExtension then some none
    else none

def decode? (b : Bytes) : Option PrivateInfo := do
  match ← members? b with
  | version :: algorithm :: key :: rest =>
    let number ← version.naturalBelow? 2
    let algorithm ← algorithm.algorithm?
    let key ← key.valueOf? Tag.octetString
    let publicKey ← publicKeyOf? rest
    if publicKey.isSome = (number == 1) then return ⟨algorithm, key, publicKey⟩ else none
  | _ => none

end PrivateInfo

namespace Oid

def rsaEncryption : Der.Oid := Der.Oid.ofNumbers [1, 2, 840, 113549, 1, 1, 1]
def ecPublicKey : Der.Oid := Der.Oid.ofNumbers [1, 2, 840, 10045, 2, 1]
def p256 : Der.Oid := Der.Oid.ofNumbers [1, 2, 840, 10045, 3, 1, 7]
def ed25519 : Der.Oid := Der.Oid.ofNumbers [1, 3, 101, 112]

end Oid

def KeyType.ofOid? (oid : Der.Oid) : Option KeyType :=
  if oid = Oid.rsaEncryption then some .rsa
  else if oid = Oid.ecPublicKey then some .ecdsa
  else if oid = Oid.ed25519 then some .ed25519
  else none

structure PublicInfo where
  algorithm : Algorithm
  /-- The bits of the last byte that do not count. -/
  unused : Nat
  key : Bytes
deriving DecidableEq, Repr

namespace PublicInfo

def encode (i : PublicInfo) : Bytes :=
  (sequence [i.algorithm.element, ⟨Tag.bitString, UInt8.ofNat i.unused :: i.key⟩]).encode

def decode? (b : Bytes) : Option PublicInfo := do
  match ← members? b with
  | [algorithm, key] =>
    let (unused, bytes) ← bits? (← key.valueOf? Tag.bitString)
    return ⟨← algorithm.algorithm?, unused, bytes⟩
  | _ => none

end PublicInfo

def isP256 (a : Algorithm) : Bool :=
  a.name == Oid.ecPublicKey && (a.parameters.bind Element.oid?) == some Oid.p256

end KeyCustody
