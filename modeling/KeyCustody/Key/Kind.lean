import KeyCustody.Digest.Sha256
import KeyCustody.Digest.Sha512
import KeyCustody.Json.Record
/-! # Kinds of keys, signature schemes and hash algorithms

Each scheme belongs to one kind of key, and each kind has one scheme that is used unless another is
named. In JSON all of them stand as their names. -/

namespace KeyCustody

inductive KeyType where
  | rsa
  | ed25519
  | ecdsa
deriving DecidableEq, Repr

inductive Scheme where
  | rsaPss
  | rsaPkcs1
  | ed25519
  | ecdsa
deriving DecidableEq, Repr

inductive HashAlgorithm where
  | sha256
  | sha512
deriving DecidableEq, Repr

namespace KeyType

def all : List KeyType := [rsa, ed25519, ecdsa]

def name : KeyType → String
  | rsa => "rsa"
  | ed25519 => "ed25519"
  | ecdsa => "ecdsa-sha2-nistp256"

def label : KeyType → String
  | rsa => "RSA"
  | ed25519 => "Ed25519"
  | ecdsa => "ECDSA"

def ofName? (name : String) : Option KeyType := all.find? (·.name == name)

def defaultScheme : KeyType → Scheme
  | rsa => .rsaPss
  | ed25519 => .ed25519
  | ecdsa => .ecdsa

end KeyType

namespace Scheme

def all : List Scheme := [rsaPss, rsaPkcs1, ed25519, ecdsa]

def name : Scheme → String
  | rsaPss => "rsassa-pss-sha256"
  | rsaPkcs1 => "rsa-pkcs1v15-sha256"
  | ed25519 => "ed25519"
  | ecdsa => "ecdsa-sha2-nistp256"

def ofName? (name : String) : Option Scheme := all.find? (·.name == name)

def keytype : Scheme → KeyType
  | rsaPss => .rsa
  | rsaPkcs1 => .rsa
  | ed25519 => .ed25519
  | ecdsa => .ecdsa

end Scheme

namespace HashAlgorithm

def all : List HashAlgorithm := [sha256, sha512]

def name : HashAlgorithm → String
  | sha256 => "sha256"
  | sha512 => "sha512"

def ofName? (name : String) : Option HashAlgorithm := all.find? (·.name == name)

def digest : HashAlgorithm → Bytes → Bytes
  | sha256 => Digest.sha256.digest
  | sha512 => Digest.sha512.digest

end HashAlgorithm

@[simp] theorem KeyType.ofName?_name (t : KeyType) : KeyType.ofName? t.name = some t := by
  cases t <;> rfl

def KeyType.reader : Json.Reader KeyType := Json.oneOf (KeyType.all.map fun t => (t.name, t))

def Scheme.reader : Json.Reader Scheme := Json.oneOf (Scheme.all.map fun s => (s.name, s))

def HashAlgorithm.reader : Json.Reader HashAlgorithm :=
  Json.oneOf (HashAlgorithm.all.map fun a => (a.name, a))

end KeyCustody
