import KeyCustody.Failure
import KeyCustody.Key.Kind
import KeyCustody.Text.Characters
/-! # Key pairs and their documents

A key pair holds the two halves of a key as text, in the encoding that its kind prescribes, and an
identifier that depends on public data only. Key pairs and the metadata that is published about them
are written as JSON objects. -/

namespace KeyCustody

/-- The halves of a key; the private one is empty where only the public one is held. -/
structure KeyVal where
  publicHalf : String
  privateHalf : String
deriving DecidableEq, Repr

structure KeyPair where
  keytype : KeyType
  scheme : Scheme
  keyid : String
  /-- The algorithms of further identifiers, if any were attached. -/
  hashAlgorithms : Option (List HashAlgorithm)
  keyval : KeyVal
deriving DecidableEq, Repr

structure Metadata where
  keytype : KeyType
  scheme : Scheme
  publicHalf : String
deriving DecidableEq, Repr

structure Signature where
  keyid : String
  sig : String
deriving DecidableEq, Repr

def checkScheme (keytype : KeyType) (scheme : Scheme) : Outcome Unit :=
  if scheme.keytype = keytype then .ok () else .error (.foreignScheme keytype scheme)

/-- The document of which an identifier is the digest, its members in sorted order. -/
def keyidDocument (keytype : KeyType) (scheme : Scheme) (publicHalf : String) : Json.Value :=
  .object [("keytype", .string keytype.name), ("keyval", .object [("public", .string publicHalf)]),
    ("scheme", .string scheme.name)]

def computeKeyid (keytype : KeyType) (scheme : Scheme) (publicHalf : String)
    (algorithm : HashAlgorithm) : String :=
  Hex.encode (algorithm.digest (Text.utf8 (keyidDocument keytype scheme publicHalf).text))

namespace KeyVal

/-- The halves as they are logged, without the private one. -/
def debug (v : KeyVal) : String :=
  Report.braced "KeyVal" [("public", Text.quoted v.publicHalf),
    ("private", Text.quoted (if v.privateHalf = "" then "" else "[REDACTED]"))]

def json (v : KeyVal) : Json.Value :=
  .object (("public", .string v.publicHalf) ::
    if v.privateHalf = "" then [] else [("private", .string v.privateHalf)])

structure Draft where
  publicHalf : Option String := none
  privateHalf : Option String := none

def layout : Json.Layout Draft KeyVal where
  title := "KeyVal"
  fields := [
    Json.Field.of "public" Draft.publicHalf Json.string fun d x => { d with publicHalf := some x },
    Json.Field.of "private" Draft.privateHalf Json.string fun d x => { d with privateHalf := some x }]
  empty := {}
  build := fun d =>
    match d.publicHalf with
    | some publicHalf => .ok ⟨publicHalf, d.privateHalf.getD ""⟩
    | none => .error 0

/-- The halves without the private one; a private half in the document is skipped. -/
def publicLayout : Json.Layout (Option String) String where
  title := "PublicKeyVal"
  fields := [Json.Field.of "public" id Json.string fun _ x => some x]
  empty := none
  build := fun d =>
    match d with
    | some publicHalf => .ok publicHalf
    | none => .error 0

end KeyVal

namespace KeyPair

def make (keytype : KeyType) (scheme : Scheme) (publicHalf privateHalf : String) :
    Outcome KeyPair := do
  checkScheme keytype scheme
  return ⟨keytype, scheme, computeKeyid keytype scheme publicHalf .sha256, none,
    ⟨publicHalf, privateHalf⟩⟩

def keyidWith (k : KeyPair) (algorithm : HashAlgorithm) : String :=
  computeKeyid k.keytype k.scheme k.keyval.publicHalf algorithm

def addKeyid (ids : List String) (id : String) : List String :=
  if ids.contains id then ids else ids ++ [id]

/-- The identifier and those by the attached algorithms, each of them once. -/
def keyids (k : KeyPair) : List String :=
  ((k.hashAlgorithms.getD []).map k.keyidWith).foldl addKeyid [k.keyid]

def hasPrivate (k : KeyPair) : Bool := k.keyval.privateHalf != ""

def publicOnly (k : KeyPair) : KeyPair :=
  { k with keyval := ⟨k.keyval.publicHalf, ""⟩ }

def metadata (k : KeyPair) : Metadata := ⟨k.keytype, k.scheme, k.keyval.publicHalf⟩

def json (k : KeyPair) : Json.Value :=
  let attached :=
    match k.hashAlgorithms with
    | some algorithms =>
      [("keyid_hash_algorithms", Json.Value.list (algorithms.map fun a => .string a.name))]
    | none => []
  .object ([("keytype", .string k.keytype.name), ("scheme", .string k.scheme.name),
    ("keyid", .string k.keyid)] ++ attached ++ [("keyval", k.keyval.json)])

def document (k : KeyPair) : String := k.json.text

structure Draft where
  keytype : Option KeyType := none
  scheme : Option Scheme := none
  keyid : Option String := none
  hashAlgorithms : Option (Option (List HashAlgorithm)) := none
  keyval : Option KeyVal := none

def Draft.build (d : Draft) : Except Nat KeyPair :=
  match d.keytype, d.scheme, d.keyid, d.keyval with
  | none, _, _, _ => .error 0
  | _, none, _, _ => .error 1
  | _, _, none, _ => .error 2
  | _, _, _, none => .error 4
  | some keytype, some scheme, some keyid, some keyval =>
    .ok ⟨keytype, scheme, keyid, d.hashAlgorithms.getD none, keyval⟩

def layout : Json.Layout Draft KeyPair where
  title := "KeyPair"
  fields := [
    Json.Field.of "keytype" Draft.keytype KeyType.reader fun d x => { d with keytype := some x },
    Json.Field.of "scheme" Draft.scheme Scheme.reader fun d x => { d with scheme := some x },
    Json.Field.of "keyid" Draft.keyid Json.string fun d x => { d with keyid := some x },
    Json.Field.of "keyid_hash_algorithms" Draft.hashAlgorithms
      (Json.optional (Json.listOf HashAlgorithm.reader)) fun d x => { d with hashAlgorithms := some x },
    Json.Field.of "keyval" Draft.keyval KeyVal.layout.read fun d x => { d with keyval := some x }]
  empty := {}
  build := Draft.build

def parse (text : Bytes) : Outcome KeyPair :=
  (Json.whole layout.read text).mapError Failure.metadata

end KeyPair

namespace Metadata

def json (m : Metadata) : Json.Value :=
  .object [("keytype", .string m.keytype.name), ("scheme", .string m.scheme.name),
    ("keyval", .object [("public", .string m.publicHalf)])]

def document (m : Metadata) : String := m.json.text

structure Draft where
  keytype : Option KeyType := none
  scheme : Option Scheme := none
  publicHalf : Option String := none

def Draft.build (d : Draft) : Except Nat Metadata :=
  match d.keytype, d.scheme, d.publicHalf with
  | none, _, _ => .error 0
  | _, none, _ => .error 1
  | _, _, none => .error 2
  | some keytype, some scheme, some publicHalf => .ok ⟨keytype, scheme, publicHalf⟩

def layout : Json.Layout Draft Metadata where
  title := "KeyMetadata"
  fields := [
    Json.Field.of "keytype" Draft.keytype KeyType.reader fun d x => { d with keytype := some x },
    Json.Field.of "scheme" Draft.scheme Scheme.reader fun d x => { d with scheme := some x },
    Json.Field.of "keyval" Draft.publicHalf KeyVal.publicLayout.read
      fun d x => { d with publicHalf := some x }]
  empty := {}
  build := Draft.build

def parse (text : Bytes) : Outcome Metadata :=
  (Json.whole layout.read text).mapError Failure.metadata

end Metadata

/-- The kind of key that a document names, if the text is a JSON object. -/
def namedKeyType? (text : String) : Option KeyType := do
  if (text.toList.dropWhile Text.isBlank).head? ≠ some '\x7b' then none
  let value ← (Json.Value.parse (Text.utf8 text)).toOption
  match value.member? "keytype" with
  | some (.string name) => KeyType.ofName? name
  | _ => none

end KeyCustody
