import KeyCustody.Cipher.Aes
import KeyCustody.Cipher.Modes
import KeyCustody.Der.Oid
import KeyCustody.Digest.Scrypt
import KeyCustody.Digest.Sha512
/-! # Encrypted private key information

A private key encrypted under a password: a key derivation and a cipher in block chaining mode, both
with their parameters, and the encrypted bytes. Schemes of an older kind are recognized and cannot be
decrypted. -/

namespace KeyCustody

open Der

/-- Hash functions of a key derivation. The oldest one is recognized, but no key is derived with it. -/
inductive Prf where
  | sha1
  | sha224
  | sha256
  | sha384
  | sha512
deriving DecidableEq, Repr

namespace Prf

def hash? : Prf → Option Digest.Iterated
  | sha1 => none
  | sha224 => some Digest.sha224
  | sha256 => some Digest.sha256
  | sha384 => some Digest.sha384
  | sha512 => some Digest.sha512

def number : Prf → Nat
  | sha1 => 7
  | sha224 => 8
  | sha256 => 9
  | sha384 => 10
  | sha512 => 11

def oid (p : Prf) : Der.Oid := Der.Oid.ofNumbers [1, 2, 840, 113549, 2, p.number]

def all : List Prf := [sha1, sha224, sha256, sha384, sha512]

def element (p : Prf) : Element := Algorithm.element ⟨p.oid, some null⟩

def ofElement? (e : Element) : Option Prf := do
  let a ← e.algorithm?
  if a.parameters = some null then all.find? (·.oid == a.name) else none

end Prf

inductive Derivation where
  | pbkdf2 (salt : Bytes) (rounds : Nat) (length : Option Nat) (prf : Prf)
  | scrypt (salt : Bytes) (cost width lanes : Nat) (length : Option Nat)
deriving DecidableEq, Repr

namespace Derivation

def pbkdf2Oid : Der.Oid := Der.Oid.ofNumbers [1, 2, 840, 113549, 1, 5, 12]
def scryptOid : Der.Oid := Der.Oid.ofNumbers [1, 3, 6, 1, 4, 1, 11591, 4, 11]

/-- The derivation function is left out of the parameters if it is this one. -/
def defaultPrf : Prf := .sha1

def element : Derivation → Element
  | pbkdf2 salt rounds length prf =>
    Algorithm.element ⟨pbkdf2Oid, some (sequence ([octetString salt, natural rounds] ++
      (length.map natural).toList ++ if prf = defaultPrf then [] else [prf.element]))⟩
  | scrypt salt cost width lanes length =>
    Algorithm.element ⟨scryptOid, some (sequence ([octetString salt, natural cost, natural width,
      natural lanes] ++ (length.map natural).toList))⟩

/-- A length of sixteen bits at the front of some members, if an integer stands there. -/
def length? : List Element → Option (Option Nat × List Element)
  | e :: rest =>
    if e.tag = Tag.integer then do return (some (← e.naturalBelow? (Nat.pow 2 16)), rest)
    else some (none, e :: rest)
  | [] => some (none, [])

def ofElement? (e : Element) : Option Derivation := do
  let a ← e.algorithm?
  let members ← (← a.parameters).members?
  if a.name = pbkdf2Oid then
    match members with
    | salt :: rounds :: rest =>
      let salt ← salt.valueOf? Tag.octetString
      let rounds ← rounds.naturalBelow? (Nat.pow 2 32)
      match ← length? rest with
      | (length, []) => return pbkdf2 salt rounds length defaultPrf
      | (length, [prf]) => return pbkdf2 salt rounds length (← Prf.ofElement? prf)
      | _ => none
    | _ => none
  else if a.name = scryptOid then
    match members with
    | salt :: cost :: width :: lanes :: rest =>
      let salt ← salt.valueOf? Tag.octetString
      let cost ← cost.naturalBelow? (Nat.pow 2 64)
      let width ← width.naturalBelow? (Nat.pow 2 16)
      let lanes ← lanes.naturalBelow? (Nat.pow 2 16)
      match ← length? rest with
      | (length, []) => return scrypt salt cost width lanes length
      | _ => none
    | _ => none
  else none

/-- Whether the parameters of the memory-hard derivation are in their bounds: the cost is a power of
two, and neither too great for the width nor is the width times the lanes. -/
def isSound (cost width lanes : Nat) : Bool :=
  0 < width && 0 < lanes && 0 < cost && Nat.pow 2 cost.log2 == cost && cost.log2 < 16 * width &&
    128 * width * cost < Nat.pow 2 64 && 128 * width * lanes < Nat.pow 2 64 &&
    width * lanes < Nat.pow 2 30

/-- So many bytes derived from a password, unless the parameters name another length. -/
def derive? (d : Derivation) (password : Bytes) (size : Nat) : Option Bytes :=
  match d with
  | pbkdf2 salt rounds length prf =>
    match prf.hash? with
    | some hash =>
      if length.all (· == size) then some (Digest.pbkdf2 hash password salt rounds size) else none
    | none => none
  | scrypt salt cost width lanes length =>
    if length.all (· == size) && isSound cost width lanes then
      some (Digest.scrypt password salt cost width lanes size)
    else none

end Derivation

inductive AesSize where
  | aes128
  | aes192
  | aes256
deriving DecidableEq, Repr

namespace AesSize

def bytes : AesSize → Nat
  | aes128 => 16
  | aes192 => 24
  | aes256 => 32

def number : AesSize → Nat
  | aes128 => 2
  | aes192 => 22
  | aes256 => 42

def oid (s : AesSize) : Der.Oid := Der.Oid.ofNumbers [2, 16, 840, 1, 101, 3, 4, 1, s.number]

def all : List AesSize := [aes128, aes192, aes256]

end AesSize

inductive Encryption where
  | standard (derivation : Derivation) (size : AesSize) (iv : Bytes)
  /-- A scheme that cannot be decrypted. -/
  | obsolete
deriving DecidableEq, Repr

namespace Encryption

def standardOid : Der.Oid := Der.Oid.ofNumbers [1, 2, 840, 113549, 1, 5, 13]

def obsoleteOids : List Der.Oid :=
  [1, 3, 4, 6, 10, 11].map fun n => Der.Oid.ofNumbers [1, 2, 840, 113549, 1, 5, n]

def cipherElement (size : AesSize) (iv : Bytes) : Element :=
  Algorithm.element ⟨size.oid, some (octetString iv)⟩

def cipherOf? (e : Element) : Option (AesSize × Bytes) := do
  let a ← e.algorithm?
  let iv ← (← a.parameters).valueOf? Tag.octetString
  let size ← AesSize.all.find? (·.oid == a.name)
  if iv.length = 16 then return (size, iv) else none

/-- The parameters of an obsolete scheme: eight bytes of salt and a number of sixteen bits. -/
def isObsolete (parameters : Element) : Bool :=
  (do
    match ← parameters.members? with
    | [salt, rounds] =>
      let salt ← salt.valueOf? Tag.octetString
      let _ ← rounds.naturalBelow? (Nat.pow 2 16)
      if salt.length = 8 then some () else none
    | _ => none : Option Unit).isSome

def ofElement? (e : Element) : Option Encryption := do
  let a ← e.algorithm?
  let parameters ← a.parameters
  if a.name = standardOid then
    match ← parameters.members? with
    | [derivation, cipher] =>
      let derivation ← Derivation.ofElement? derivation
      let (size, iv) ← cipherOf? cipher
      return standard derivation size iv
    | _ => none
  else if obsoleteOids.contains a.name ∧ isObsolete parameters then return obsolete
  else none

end Encryption

structure EncryptedInfo where
  encryption : Encryption
  data : Bytes
deriving DecidableEq, Repr

namespace EncryptedInfo

def decode? (b : Bytes) : Option EncryptedInfo := do
  match ← members? b with
  | [encryption, data] =>
    return ⟨← Encryption.ofElement? encryption, ← data.valueOf? Tag.octetString⟩
  | _ => none

/-- The document of an encrypted key; an obsolete scheme has none. -/
def encode? (i : EncryptedInfo) : Option Bytes :=
  match i.encryption with
  | .standard derivation size iv =>
    let parameters := sequence [derivation.element, Encryption.cipherElement size iv]
    some (sequence [Algorithm.element ⟨Encryption.standardOid, some parameters⟩,
      octetString i.data]).encode
  | .obsolete => none

def decrypt? (i : EncryptedInfo) (password : Bytes) : Option Bytes :=
  match i.encryption with
  | .standard derivation size iv => do
    let key ← Cipher.Aes.Key.ofBytes? (← derivation.derive? password size.bytes)
    Cipher.Chaining.decrypt? key.decrypt iv i.data
  | .obsolete => none

def encrypt? (plain password salt iv : Bytes) (rounds : Nat) : Option EncryptedInfo := do
  let derivation := Derivation.pbkdf2 salt rounds none .sha256
  let key ← Cipher.Aes.Key.ofBytes? (← derivation.derive? password AesSize.aes256.bytes)
  return ⟨.standard derivation .aes256 iv, Cipher.Chaining.encrypt key.encrypt iv plain⟩

end EncryptedInfo

end KeyCustody
