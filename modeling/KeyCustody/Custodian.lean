import KeyCustody.Atomic
import KeyCustody.Envelope
import KeyCustody.Generation
import KeyCustody.Password
/-! # The custodian of key files

Keeps each key in two files: the private half at a path, encrypted unless its password is empty, and
the public half next to it under the same name with `.pub` at the end. What is read back must be of the
expected kind, and its identifier is computed anew. -/

namespace KeyCustody

/-- Who works on key files, under settings that are acceptable. -/
structure Custodian where
  settings : Settings
  accepted : settings.fault? = none

namespace Custodian

def ofSettings (settings : Settings) : Outcome Custodian :=
  match h : settings.fault? with
  | none => .ok ⟨settings, h⟩
  | some fault => .error (.settings fault)

def default : Custodian := ⟨Settings.default, by decide⟩

/-! ## Writing -/

/-- What is written to the file of the private half. -/
def privatePayload (c : Custodian) (k : KeyPair) (password : String) : Action String :=
  match k.keytype with
  | .rsa =>
    if password = "" then return k.keyval.privateHalf
    else do
      let info ← Action.ofOutcome (Rsa.privateInfo k.keyval.privateHalf)
      let salt ← Action.random 16
      let iv ← Action.random 16
      Action.ofOutcome
        (Rsa.encryptedDocument info password c.settings.iterations.toNat salt iv)
  | _ =>
    if password = "" then return k.document
    else do
      let salt ← Action.random 16
      let iv ← Action.random 16
      Action.ofOutcome (Envelope.lockKey k password c.settings.iterations salt iv)

def publicPayload (k : KeyPair) : String :=
  match k.keytype with
  | .rsa => k.keyval.publicHalf
  | _ => k.metadata.document

/-- The path that a key is written to: the one that is named, or else the key's identifier in the
current directory. -/
def destination (k : KeyPair) : Option Path → Action Path
  | some path => do
    Action.ofOutcome path.check
    return path
  | none => do return (← Action.workingDirectory).join ⟨k.keyid⟩

/-- Writes both halves of a key, the public one first, and says where the private one is. The password
is asked for, and confirmed, unless it is given. -/
def write (c : Custodian) (k : KeyPair) (path : Option Path) (password : Option String) :
    Action Path := do
  if !k.hasPrivate then throw .publicOnlyWrite
  let path ← destination k path
  let prompt := Password.creationPrompt k.keytype path
  let password ← Password.acquire password prompt true c.settings.maxPasswordAttempts.toNat
  let payload ← c.privatePayload k password
  Atomic.replace path.publicKey (Text.utf8 (publicPayload k))
  Atomic.replace path (Text.utf8 payload)
  return path

def generateRsa (c : Custodian) (path : Option Path) (bits : Option Nat)
    (password : Option String) : Action Path := do
  let bits := bits.getD c.settings.rsaDefaultBits.toNat
  c.write (← Generation.rsa bits KeyType.rsa.defaultScheme c.settings) path password

def generateEd25519 (c : Custodian) (path : Option Path) (password : Option String) :
    Action Path := do
  c.write (← Generation.ed25519) path password

def generateEcdsa (c : Custodian) (path : Option Path) (password : Option String) :
    Action Path := do
  c.write (← Generation.ecdsa) path password

/-! ## Reading -/

def publicKeyOf (text : String) (expected : KeyType) (scheme : Scheme) : Outcome KeyPair := do
  match namedKeyType? text with
  | some found => if found ≠ expected then throw (.unexpectedKeyType expected found)
  | none => pure ()
  match expected with
  | .rsa =>
    checkScheme .rsa scheme
    Rsa.readPublic text scheme
  | _ => KeyPair.ofMetadata (← Metadata.parse (Text.utf8 text)) expected

/-- The key pair that a private document describes. Its identifier is not trusted. -/
def keyPairOf (c : Custodian) (document : Bytes) (expected : KeyType) : Outcome KeyPair := do
  let stored ← KeyPair.parse document
  if stored.keytype ≠ expected then throw (.unexpectedKeyType expected stored.keytype)
  let k ← KeyPair.make stored.keytype stored.scheme stored.keyval.publicHalf
    stored.keyval.privateHalf
  if !k.hasPrivate then throw .noPrivateMaterial
  k.validate
  return { k with hashAlgorithms := some c.settings.hashAlgorithms }

/-- The private key in a text, which must be encrypted if and only if the password is not empty. -/
def privateKeyOf (c : Custodian) (text : String) (expected : KeyType) (password : String)
    (scheme : Scheme) : Outcome KeyPair :=
  match expected with
  | .rsa =>
    match namedKeyType? text with
    | some found => .error (.unexpectedKeyType .rsa found)
    | none => Rsa.readPrivate text password scheme
  | expected =>
    if password = "" then
      if Envelope.looksLike text then .error (.missingPassword expected)
      else c.keyPairOf (Text.utf8 text) expected
    else if (namedKeyType? text).isSome then .error (.needlessPassword expected)
    else do
      c.keyPairOf (← Envelope.unlockText text password c.settings.maxIterations) expected

def loadPublic (path : Path) (expected : KeyType) (scheme : Scheme) : Action KeyPair := do
  Action.ofOutcome path.check
  let text ← Action.readText path
  Action.ofOutcome (publicKeyOf text expected scheme)

/-- The private key in the file at a path, with a scheme if it is an RSA key. The password is asked
for unless it is given. -/
def loadPrivate (c : Custodian) (path : Path) (expected : KeyType) (password : Option String)
    (scheme : Scheme) : Action KeyPair := do
  Action.ofOutcome path.check
  if expected = .rsa then Action.ofOutcome (checkScheme .rsa scheme)
  let prompt := Password.importPrompt expected path
  let password ← Password.acquire password prompt false c.settings.maxPasswordAttempts.toNat
  let text ← Action.readText path
  Action.ofOutcome (c.privateKeyOf text expected password scheme)

def readPublic (path : Path) (expected : KeyType) : Action KeyPair :=
  loadPublic path expected expected.defaultScheme

def readPrivate (c : Custodian) (path : Path) (expected : KeyType) (password : Option String) :
    Action KeyPair :=
  c.loadPrivate path expected password expected.defaultScheme

def importRsaPublic (path : Path) (scheme : Scheme) : Action KeyPair := loadPublic path .rsa scheme

def importRsaPrivate (c : Custodian) (path : Path) (password : Option String) (scheme : Scheme) :
    Action KeyPair :=
  c.loadPrivate path .rsa password scheme

def settingsIn (path : Path) : Action Settings := do
  Action.ofOutcome (Settings.parse (Text.utf8 (← Action.readText path)))

end Custodian

end KeyCustody
