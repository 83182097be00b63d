import KeyCustody.Bytes.Hex
import KeyCustody.Json.Fault
import KeyCustody.Key.Kind
import KeyCustody.Report
/-! # Causes of failure

Every way in which an operation of the library can fail, and the report that each of them makes. -/

namespace KeyCustody

inductive PemFault where
  /-- The text, the encoding of its contents or the key itself is malformed. -/
  | malformed
  /-- A public key was expected under another label. -/
  | unexpectedLabel (label : String)
  /-- Neither a private key nor an encrypted one. -/
  | unsupportedLabel (label : String)
  /-- The object identifier names no kind of key. -/
  | unknownAlgorithm (oid : String)
deriving DecidableEq, Repr

def PemFault.message : PemFault → String
  | malformed => "malformed key document"
  | unexpectedLabel label => "unexpected PEM label '" ++ label ++ "'"
  | unsupportedLabel label => "unsupported PEM label '" ++ label ++ "'"
  | unknownAlgorithm oid => "unknown key algorithm " ++ oid

inductive Half where
  | publicHalf
  | privateHalf
deriving DecidableEq, Repr

def Half.name : Half → String
  | publicHalf => "public"
  | privateHalf => "private"

inductive EnvelopeFault where
  | fieldCount (found : Nat)
  | badHex (field : String) (fault : Hex.Fault)
  | badIterations
  | missingParameters
  | ivSize
  | tagSize
  | zeroIterations
  | tooManyIterations (count limit : Nat)
deriving DecidableEq, Repr

def hexMessage : Hex.Fault → String
  | .oddLength => "Odd number of digits"
  | .badDigit byte index =>
    "Invalid character " ++ Text.quotedChar (Char.ofNat byte.toNat) ++ " at position " ++
      Decimal.text index

def EnvelopeFault.message : EnvelopeFault → String
  | fieldCount found => "expected 5 fields separated by '@@@@', found " ++ Decimal.text found
  | badHex field fault => "invalid " ++ field ++ ": " ++ hexMessage fault
  | badIterations => "invalid iteration count"
  | missingParameters => "missing key derivation parameters"
  | ivSize => "iv must be 16 bytes"
  | tagSize => "hmac must be 32 bytes"
  | zeroIterations => "PBKDF2 iteration count must be non-zero"
  | tooManyIterations count limit =>
    "iteration count " ++ Decimal.text count ++ " exceeds the limit of " ++ Decimal.text limit

inductive SettingsFault where
  | noIterations
  | ceilingBelow (iterations ceiling : Nat)
  | boundsCrossed (least greatest : Nat)
  | defaultOutOfBounds (bits least : Nat)
  | noAttempts
deriving DecidableEq, Repr

inductive Failure where
  -- what the caller asked for
  | unknownKeyType (text : String)
  | unknownScheme (text : String)
  | foreignScheme (keytype : KeyType) (scheme : Scheme)
  | notRsaScheme (scheme : Scheme)
  | unexpectedKeyType (expected found : KeyType)
  | emptyPath
  /-- The path ends in a component that names no file. -/
  | namelessPath (last : String)
  | rsaSize (bits least : Nat) (greatest : Option Nat)
  | settings (fault : SettingsFault)
  | settingsText (fault : Json.PlacedFault)
  | passwordMismatch (attempts : Nat)
  /-- A key without its private half was to be written. -/
  | publicOnlyWrite
  /-- A key without its private half was to sign. -/
  | publicOnlySign
  -- what was read
  | rsaPem (half : Half) (fault : PemFault)
  | metadata (fault : Json.PlacedFault)
  | envelope (fault : EnvelopeFault)
  | hexText (artifact : String) (fault : Hex.Fault)
  | signatureText (fault : Hex.Fault)
  | rsaMismatch
  | ed25519Length (half : Half) (found : Nat)
  | ed25519Point
  | ed25519Mismatch
  | ecdsaMalformed
  | ecdsaMismatch
  | noPrivateMaterial
  -- cryptography
  | rsaGeneration
  | zeroIterations
  | cipherParameters
  | rsaEncryption
  | tagMismatch
  | rsaDecryption
  | rsaSigning
  | ecdsaSigning
  /-- A password for a key that is not encrypted. -/
  | needlessPassword (keytype : KeyType)
  /-- No password for a key that is encrypted. -/
  | missingPassword (keytype : KeyType)
  | noEntropy
  -- files and the terminal
  | io (kind : IoKind) (text : String)
deriving DecidableEq, Repr

namespace Failure

def rsaArtifact (half : Half) : String := "RSA " ++ half.name ++ " key"

/-- The operation that finds a password needless or missing. -/
def importOperation : KeyType → String
  | .rsa => "rsa_import"
  | _ => "import"

def settingsReport : SettingsFault → Report
  | .noIterations =>
    .format "pbkdf2_iterations" "a non-zero count" "0" ReportCode.invalidSettings.number
  | .ceilingBelow iterations ceiling =>
    .format "max_pbkdf2_iterations" ("at least pbkdf2_iterations (" ++ Decimal.text iterations ++ ")")
      (Decimal.text ceiling) ReportCode.invalidSettings.number
  | .boundsCrossed least greatest =>
    .format "rsa_min_bits" ("at most rsa_max_bits (" ++ Decimal.text greatest ++ ")")
      (Decimal.text least) ReportCode.invalidSettings.number
  | .defaultOutOfBounds bits least =>
    .format "default_rsa_bits" ("an allowed RSA key size, at least " ++ Decimal.text least)
      (Decimal.text bits) ReportCode.invalidSettings.number
  | .noAttempts => .format "max_password_attempts" "at least 1" "0" ReportCode.invalidSettings.number

def report : Failure → Report
  | unknownKeyType text =>
    .format "keytype" "one of 'rsa', 'ed25519', 'ecdsa-sha2-nistp256'" text
      ReportCode.unexpectedKeyType.number
  | unknownScheme text =>
    .format "scheme" "a supported signature scheme" text ReportCode.invalidScheme.number
  | foreignScheme keytype scheme =>
    .format "scheme" ("a signature scheme for '" ++ keytype.name ++ "' keys") scheme.name
      ReportCode.invalidScheme.number
  | notRsaScheme scheme =>
    .format "scheme" "an RSA signature scheme" scheme.name ReportCode.invalidScheme.number
  | unexpectedKeyType expected found => .unexpectedKeyType expected.name found.name
  | emptyPath => .format "filepath" "a non-empty path" "an empty path" ReportCode.invalidPath.number
  | namelessPath last =>
    .format "filepath" "a path naming a file" ("a path ending in '" ++ last ++ "'")
      ReportCode.invalidPath.number
  | rsaSize bits least greatest =>
    let expected :=
      match greatest with
      | some most =>
        "an RSA key size between " ++ Decimal.text least ++ " and " ++ Decimal.text most
      | none => "an RSA key size of at least " ++ Decimal.text least
    .format "bits" expected (Decimal.text bits) ReportCode.invalidRsaBits.number
  | settings fault => settingsReport fault
  | settingsText fault =>
    .format "settings" "a settings JSON object" fault.message ReportCode.invalidSettings.number
  | passwordMismatch attempts =>
    .format "password" "two matching entries" (Decimal.text attempts ++ " mismatched attempts")
      ReportCode.passwordMismatch.number
  | publicOnlyWrite =>
    .format "keypair" "a key pair with private material" "a public-only key"
      ReportCode.missingPrivateKey.number
  | publicOnlySign =>
    .format "keyval.private" "private key material" "a public-only key"
      ReportCode.missingPrivateKey.number
  | rsaPem .publicHalf fault =>
    .decode (rsaArtifact .publicHalf) ("Cannot import improperly formatted PEM file: " ++ fault.message)
      ReportCode.malformedPem.number
  | rsaPem .privateHalf fault =>
    .decode (rsaArtifact .privateHalf) fault.message ReportCode.malformedPem.number
  | metadata fault => .decode "key metadata" fault.message ReportCode.malformedMetadata.number
  | envelope fault => .decode "encrypted key" fault.message ReportCode.malformedEnvelope.number
  | hexText artifact fault =>
    .decode artifact ("invalid hex: " ++ hexMessage fault) ReportCode.malformedKeyval.number
  | signatureText fault => .decode "signature" (hexMessage fault) ReportCode.malformedSignature.number
  | rsaMismatch =>
    .decode "RSA key" "private key does not match public key" ReportCode.malformedKeyval.number
  | ed25519Length half found =>
    .decode "Ed25519 key"
      ("Ed25519 " ++ half.name ++ " key must be 32 bytes, got " ++ Decimal.text found)
      ReportCode.malformedKeyval.number
  | ed25519Point => .decode "Ed25519 key" "not a point of the curve" ReportCode.malformedKeyval.number
  | ed25519Mismatch =>
    .decode "Ed25519 key" "private key does not match public key" ReportCode.malformedKeyval.number
  | ecdsaMalformed =>
    .decode "ECDSA key" "malformed key document" ReportCode.malformedKeyval.number
  | ecdsaMismatch =>
    .decode "ECDSA key" "private key does not match public key" ReportCode.malformedKeyval.number
  | noPrivateMaterial =>
    .decode "private key file" "no private key material" ReportCode.malformedKeyval.number
  | rsaGeneration =>
    .crypto "rsa_generate" "no key of this size" ReportCode.keyGenerationFailed.number
  | zeroIterations =>
    .crypto "encrypt" "PBKDF2 iteration count must be non-zero" ReportCode.encryptionFailed.number
  | cipherParameters =>
    .crypto "aes_ctr" "wrong size of key or iv" ReportCode.encryptionFailed.number
  | rsaEncryption =>
    .crypto "rsa_encrypt" "too many iterations" ReportCode.encryptionFailed.number
  | tagMismatch => .decryptionFailed "HMAC mismatch"
  | rsaDecryption => .decryptionFailed "wrong password or damaged key"
  | rsaSigning => .crypto "rsa_sign" "the key cannot sign" ReportCode.signingFailed.number
  | ecdsaSigning => .crypto "ecdsa_sign" "no signature" ReportCode.signingFailed.number
  | needlessPassword keytype =>
    .crypto (importOperation keytype) "Password was given but private key is not encrypted"
      ReportCode.encryptionStateMismatch.number
  | missingPassword keytype =>
    .crypto (importOperation keytype) "Password was not given but private key is encrypted"
      ReportCode.encryptionStateMismatch.number
  | noEntropy =>
    .crypto "random_bytes" "no random bytes available" ReportCode.entropyUnavailable.number
  | io kind text => .io kind text

end Failure

/-- A result or the cause of its absence. -/
abbrev Outcome (α : Type) := Except Failure α

/-- The result of an optional value, with the cause of failure for its absence. -/
def Outcome.ofOption {α : Type} (cause : Failure) : Option α → Outcome α
  | some a => .ok a
  | none => .error cause

/-- Nothing, if a condition holds, and otherwise a failure. -/
def Outcome.require (condition : Bool) (cause : Failure) : Outcome Unit :=
  if condition then .ok () else .error cause

namespace Outcome

variable {α β : Type} {x : Outcome α} {f : α → Outcome β} {b : β} {cause : Failure}

@[simp] theorem ok_bind (a : α) (f : α → Outcome β) : ((.ok a : Outcome α) >>= f) = f a := rfl

theorem bind_eq_ok : (x >>= f) = .ok b ↔ ∃ a, x = .ok a ∧ f a = .ok b := by
  cases x with
  | error e => simp [bind, Except.bind]
  | ok a => simp

theorem bind_eq_error :
    (x >>= f) = .error cause ↔ x = .error cause ∨ ∃ a, x = .ok a ∧ f a = .error cause := by
  cases x with
  | error e => simp [bind, Except.bind]
  | ok a => simp

@[simp] theorem ofOption_eq_ok {a : α} {o : Option α} : ofOption cause o = .ok a ↔ o = some a := by
  cases o <;> simp [ofOption]

theorem require_eq_ok {condition : Bool} : require condition cause = .ok () ↔ condition = true := by
  cases condition <;> simp [require]

theorem exists_ok (h : x.toOption.isSome = true) : ∃ a, x = .ok a := by
  cases x with
  | error e => cases h
  | ok a => exact ⟨a, rfl⟩

end Outcome

end KeyCustody
