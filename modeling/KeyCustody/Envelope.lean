import KeyCustody.Cipher.Aes
import KeyCustody.Cipher.Modes
import KeyCustody.Digest.Iterated
import KeyCustody.Digest.Sha256
import KeyCustody.Failure
import KeyCustody.Key.Pair
import KeyCustody.Text.Characters
/-! # Envelopes

A byte string encrypted under a password, in five fields: salt, iteration count, tag, initial block
and encrypted bytes. The tag is computed over the encrypted bytes alone, under the key that encrypts
them. In text the fields stand between marks of four `@`. -/

namespace KeyCustody

structure Envelope where
  salt : Bytes
  iterations : UInt32
  tag : Bytes
  iv : Bytes
  ciphertext : Bytes
deriving DecidableEq, Repr

namespace Envelope

def deriveKey (password : String) (salt : Bytes) (iterations : UInt32) : Bytes :=
  Digest.pbkdf2 Digest.sha256 (Text.utf8 password) salt iterations.toNat 32

/-- Encrypts and decrypts under a key of thirty-two bytes and an initial block of sixteen. -/
def applyKeyStream (key iv data : Bytes) : Outcome Bytes :=
  match Cipher.Aes.Key.ofBytes? key with
  | some k =>
    if key.length = 32 ∧ iv.length = 16 then .ok (Cipher.Counter.apply k.encrypt iv data)
    else .error .cipherParameters
  | none => .error .cipherParameters

def lock (plaintext : Bytes) (password : String) (iterations : UInt32) (salt iv : Bytes) :
    Outcome Envelope := do
  if iterations = 0 then throw .zeroIterations
  let key := deriveKey password salt iterations
  let ciphertext ← applyKeyStream key iv plaintext
  return ⟨salt, iterations, Digest.hmac Digest.sha256 key ciphertext, iv, ciphertext⟩

/-- The bytes in an envelope, if its tag is the one of its encrypted bytes under the key that the
password gives. -/
def unlock (e : Envelope) (password : String) : Outcome Bytes := do
  if e.iterations = 0 then throw (.envelope .zeroIterations)
  let key := deriveKey password e.salt e.iterations
  Outcome.require (Bytes.sameSecret (Digest.hmac Digest.sha256 key e.ciphertext) e.tag) .tagMismatch
  applyKeyStream key e.iv e.ciphertext

def mark : List Char := ['@', '@', '@', '@']

/-- The fields of a text, cut at every mark from the left. -/
def fields : List Char → List (List Char)
  | [] => [[]]
  | '@' :: '@' :: '@' :: '@' :: cs => [] :: fields cs
  | c :: cs =>
    match fields cs with
    | f :: fs => (c :: f) :: fs
    | [] => [[c]]

def encodeChars (e : Envelope) : List Char :=
  mark.intercalate [Hex.encodeChars e.salt, Decimal.digits e.iterations.toNat,
    Hex.encodeChars e.tag, Hex.encodeChars e.iv, Hex.encodeChars e.ciphertext]

def encode (e : Envelope) : String := String.ofList e.encodeChars

def hexField (name : String) (cs : List Char) : Outcome Bytes :=
  (Hex.decode (String.ofList cs)).mapError fun fault => .envelope (.badHex name fault)

/-- The iteration count of a field, a plus sign before which is ignored. -/
def countField (cs : List Char) : Outcome UInt32 :=
  let digits :=
    match cs with
    | '+' :: rest => rest
    | cs => cs
  match Decimal.read? digits with
  | some n => if n < Nat.pow 2 32 then .ok (UInt32.ofNat n) else .error (.envelope .badIterations)
  | none => .error (.envelope .badIterations)

def decode (text : String) : Outcome Envelope :=
  match fields (Text.trim text.toList) with
  | [salt, count, tag, iv, ciphertext] => do
    let salt ← hexField "salt" salt
    let iterations ← countField count
    let tag ← hexField "hmac" tag
    let iv ← hexField "iv" iv
    let ciphertext ← hexField "ciphertext" ciphertext
    if salt = [] ∨ iterations = 0 then throw (.envelope .missingParameters)
    if iv.length ≠ 16 then throw (.envelope .ivSize)
    if tag.length ≠ 32 then throw (.envelope .tagSize)
    return ⟨salt, iterations, tag, iv, ciphertext⟩
  | others => .error (.envelope (.fieldCount others.length))

/-- Whether a text has as many fields as an envelope. -/
def looksLike (text : String) : Bool := (fields (Text.trim text.toList)).length == 5

/-- The bytes in the envelope that a text consists of. An iteration count above the limit is refused
before anything is computed. -/
def unlockText (text password : String) (limit : UInt32) : Outcome Bytes := do
  let e ← decode text
  if limit < e.iterations then
    throw (.envelope (.tooManyIterations e.iterations.toNat limit.toNat))
  e.unlock password

/-- The document of a key pair in an envelope. -/
def lockKey (k : KeyPair) (password : String) (iterations : UInt32) (salt iv : Bytes) :
    Outcome String := do
  return (← lock (Text.utf8 k.document) password iterations salt iv).encode

end Envelope

end KeyCustody
