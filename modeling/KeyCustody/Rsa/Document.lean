import KeyCustody.Failure
import KeyCustody.KeyInfo.Encrypted
import KeyCustody.KeyInfo.Plain
import KeyCustody.Pem.Block
import KeyCustody.Rsa.Basic
import KeyCustody.Text.Characters
/-! # RSA keys as PEM documents

Public keys stand under the label `PUBLIC KEY`, private ones under `PRIVATE KEY`, or encrypted under
`ENCRYPTED PRIVATE KEY`. A public key is found wherever its block begins in a text; a private key may
only have blanks around its block. -/

namespace KeyCustody.Rsa

open Der

def publicLabel : String := "PUBLIC KEY"
def privateLabel : String := "PRIVATE KEY"
def encryptedLabel : String := "ENCRYPTED PRIVATE KEY"

def algorithm : Algorithm := ⟨Oid.rsaEncryption, some null⟩

namespace PublicKey

def element (k : PublicKey) : Element := sequence [natural k.modulus, natural k.exponent]

def numbers? (b : Bytes) : Option PublicKey := do
  match ← members? b with
  | [modulus, exponent] => return ⟨← modulus.natural?, ← exponent.natural?⟩
  | _ => none

def info (k : PublicKey) : PublicInfo := ⟨algorithm, 0, k.element.encode⟩

def document (k : PublicKey) : String := (Pem.Block.mk publicLabel k.info.encode).encode

end PublicKey

namespace PrivateKey

/-- The numbers of a private key, unless the second prime has no inverse modulo the first. -/
def element? (k : PrivateKey) : Option Element := do
  let coefficient ← k.coefficient?
  return sequence ([0, k.publicKey.modulus, k.publicKey.exponent, k.exponent, k.prime1, k.prime2,
    k.exponent1, k.exponent2, coefficient].map natural)

def ofNumbers? (b : Bytes) : Option PrivateKey := do
  match ← (← members? b).mapM Element.natural? with
  | [0, modulus, publicExponent, exponent, prime1, prime2, _, _, _] =>
    let k : PrivateKey := ⟨⟨modulus, publicExponent⟩, exponent, prime1, prime2⟩
    if k.isSound then some k else none
  | _ => none

def info? (k : PrivateKey) : Option PrivateInfo := do
  return ⟨algorithm, (← k.element?).encode, none⟩

/-- The document of a private key, unless it has no coefficient or would be too long. -/
def document? (k : PrivateKey) : Option String := do
  let contents := (← k.info?).encode
  if contents.length ≤ maxLength then return (Pem.Block.mk privateLabel contents).encode else none

def ofInfo? (i : PrivateInfo) : Option PrivateKey :=
  if i.algorithm = algorithm then ofNumbers? i.key else none

end PrivateKey

def refuse {α : Type} (half : Half) (fault : PemFault) : Outcome α := .error (.rsaPem half fault)

/-- A value that only a well formed half of a key has. -/
def wellFormed {α : Type} (half : Half) (a : Option α) : Outcome α :=
  Outcome.ofOption (.rsaPem half .malformed) a

def checkAlgorithm (half : Half) (oid : Der.Oid) : Outcome Unit :=
  match KeyType.ofOid? oid with
  | some .rsa => .ok ()
  | some found => .error (.unexpectedKeyType .rsa found)
  | none => refuse half (.unknownAlgorithm oid.text)

def beginPublic : List Char := "-----BEGIN PUBLIC KEY-----".toList

def endPublic : List Char := "-----END PUBLIC KEY-----".toList

def fromMark? (mark : List Char) : List Char → Option (List Char)
  | [] => none
  | c :: cs => if mark.isPrefixOf (c :: cs) then some (c :: cs) else fromMark? mark cs

/-- The text up to the end of the first occurrence of a mark. -/
def throughMark? (mark : List Char) : List Char → Option (List Char)
  | [] => none
  | c :: cs =>
    if mark.isPrefixOf (c :: cs) then some mark else (throughMark? mark cs).map (c :: ·)

/-- The part of a text that holds a public key, as far as marks tell. -/
def publicBlock (text : List Char) : List Char :=
  match fromMark? beginPublic text with
  | none => Text.trim text
  | some rest =>
    match throughMark? endPublic rest with
    | some block => block
    | none => Text.trim rest

/-- A block of which the contents are one sequence. -/
def block? (text : List Char) : Option Pem.Block := do
  let block ← Pem.decodeChars? text
  let e ← single? block.contents
  if e.tag = Tag.sequence then return block else none

def PublicKey.parse (text : String) : Outcome PublicKey := do
  let block ← wellFormed .publicHalf (block? (publicBlock text.toList))
  if block.label ≠ publicLabel then refuse .publicHalf (.unexpectedLabel block.label)
  let info ← wellFormed .publicHalf (PublicInfo.decode? block.contents)
  checkAlgorithm .publicHalf info.algorithm.name
  let key ← wellFormed .publicHalf (PublicKey.numbers? info.key)
  if key.isSound maxPublicBits then return key else refuse .publicHalf .malformed

/-- The private key information in a text, whatever its label. -/
def privateInfo (text : String) : Outcome PrivateInfo := do
  let block ← wellFormed .privateHalf (block? (Text.trim text.toList))
  wellFormed .privateHalf (PrivateInfo.decode? block.contents)

def PrivateKey.parse (text : String) : Outcome PrivateKey :=
  wellFormed .privateHalf do
    let block ← block? (Text.trim text.toList)
    if block.label ≠ privateLabel then none
    PrivateKey.ofInfo? (← PrivateInfo.decode? block.contents)

/-- The private key that a text consists of, encrypted if and only if a password is given. -/
def PrivateKey.unlock (text password : String) : Outcome PrivateKey := do
  let block ← wellFormed .privateHalf (block? (Text.trim text.toList))
  let info ←
    if block.label = encryptedLabel then do
      if password = "" then throw (.missingPassword .rsa)
      let encrypted ← wellFormed .privateHalf (EncryptedInfo.decode? block.contents)
      Outcome.ofOption .rsaDecryption do
        PrivateInfo.decode? (← encrypted.decrypt? (Text.utf8 password))
    else if block.label = privateLabel then do
      if password ≠ "" then throw (.needlessPassword .rsa)
      wellFormed .privateHalf (PrivateInfo.decode? block.contents)
    else refuse .privateHalf (.unsupportedLabel block.label)
  checkAlgorithm .privateHalf info.algorithm.name
  wellFormed .privateHalf (PrivateKey.ofInfo? info)

def maxRounds : Nat := 100000000

/-- A private key encrypted under a password, as a document, unless it would be too long. -/
def encryptedDocument (info : PrivateInfo) (password : String) (rounds : Nat) (salt iv : Bytes) :
    Outcome String :=
  Outcome.ofOption .rsaEncryption do
    if rounds > maxRounds then none
    let i ← EncryptedInfo.encrypt? info.encode (Text.utf8 password) salt iv rounds
    let contents ← i.encode?
    if contents.length ≤ maxLength then return (Pem.Block.mk encryptedLabel contents).encode else none

end KeyCustody.Rsa
