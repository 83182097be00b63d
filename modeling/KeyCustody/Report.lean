import KeyCustody.Decimal
import KeyCustody.Text.Characters
/-! # Reports of what went wrong

A report has one of four categories, a number, a technical message and a message for the user. -/

namespace KeyCustody

inductive IoKind where
  | notFound
  | alreadyExists
  | isADirectory
  | notADirectory
  | nameTooLong
  | busy
  | notText
  | inputExhausted
  | other
deriving DecidableEq, Repr

namespace IoKind

def name : IoKind → String
  | notFound => "NotFound"
  | alreadyExists => "AlreadyExists"
  | isADirectory => "IsADirectory"
  | notADirectory => "NotADirectory"
  | nameTooLong => "InvalidFilename"
  | busy => "ResourceBusy"
  | notText => "InvalidData"
  | inputExhausted => "UnexpectedEof"
  | other => "Other"

def text : IoKind → String
  | notFound => "No such file or directory (os error 2)"
  | alreadyExists => "File exists (os error 17)"
  | isADirectory => "Is a directory (os error 21)"
  | notADirectory => "Not a directory (os error 20)"
  | nameTooLong => "File name too long (os error 36)"
  | busy => "Device or resource busy (os error 16)"
  | notText => "stream did not contain valid UTF-8"
  | inputExhausted => "failed to fill whole buffer"
  | other => "other error"

end IoKind

/-- The numbers of reports, a thousand to each category. -/
inductive ReportCode where
  | invalidPath
  | invalidRsaBits
  | invalidScheme
  | unexpectedKeyType
  | passwordMismatch
  | invalidSettings
  | missingPrivateKey
  | malformedPem
  | malformedMetadata
  | malformedEnvelope
  | malformedKeyval
  | malformedSignature
  | keyGenerationFailed
  | encryptionFailed
  | decryptionFailed
  | signingFailed
  | encryptionStateMismatch
  | entropyUnavailable
  | ioFailed
deriving DecidableEq, Repr

def ReportCode.number : ReportCode → Nat
  | invalidPath => 1001
  | invalidRsaBits => 1002
  | invalidScheme => 1003
  | unexpectedKeyType => 1004
  | passwordMismatch => 1005
  | invalidSettings => 1006
  | missingPrivateKey => 1007
  | malformedPem => 2001
  | malformedMetadata => 2002
  | malformedEnvelope => 2003
  | malformedKeyval => 2004
  | malformedSignature => 2005
  | keyGenerationFailed => 3001
  | encryptionFailed => 3002
  | decryptionFailed => 3003
  | signingFailed => 3004
  | encryptionStateMismatch => 3005
  | entropyUnavailable => 3006
  | ioFailed => 4001

inductive Report where
  | format (parameter expected actual : String) (code : Nat)
  | decode (artifact cause : String) (code : Nat)
  | crypto (operation cause : String) (code : Nat)
  | io (kind : IoKind) (text : String)
deriving DecidableEq, Repr

namespace Report

def unexpectedKeyType (expected found : String) : Report :=
  format "keytype" ("'" ++ expected ++ "'") ("Invalid key type loaded: '" ++ found ++ "'")
    ReportCode.unexpectedKeyType.number

def decryptionFailed (cause : String) : Report :=
  crypto "decrypt" cause ReportCode.decryptionFailed.number

def code : Report → Nat
  | format _ _ _ code => code
  | decode _ _ code => code
  | crypto _ _ code => code
  | io _ _ => ReportCode.ioFailed.number

def category : Report → String
  | format _ _ _ _ => "FormatError"
  | decode _ _ _ => "DecodeError"
  | crypto _ _ _ => "CryptoError"
  | io _ _ => "IoError"

def message : Report → String
  | format parameter expected actual _ =>
    "Invalid format: " ++ parameter ++ " - expected " ++ expected ++ ", got " ++ actual
  | decode artifact cause _ => "Cannot decode " ++ artifact ++ ": " ++ cause
  | crypto operation cause _ => "Cryptographic operation failed: " ++ operation ++ " - " ++ cause
  | io _ text => "IO error: " ++ text

/-- Whether the password was wrong or the encrypted data changed. -/
def isDecryptionFailure : Report → Bool
  | crypto _ _ code => code == ReportCode.decryptionFailed.number
  | _ => false

/-- The message for the user. -/
def friendly : Report → String
  | format parameter expected _ _ =>
    "Invalid value for '" ++ parameter ++ "'. Expected " ++ expected ++ "."
  | decode artifact _ _ => "'" ++ artifact ++ "' is not a valid key file for the requested key type."
  | crypto operation _ code =>
    if code = ReportCode.decryptionFailed.number then
      "Decryption failed. The password may be wrong or the key file corrupted."
    else "Cryptographic operation '" ++ operation ++ "' failed."
  | io _ _ => "Input/output operation failed. Check file permissions and disk space."

/-- A name with its fields between braces. -/
def braced (name : String) (fields : List (String × String)) : String :=
  name ++ " \x7b " ++ ", ".intercalate (fields.map fun (key, value) => key ++ ": " ++ value) ++ " \x7d"

def debug : Report → String
  | format parameter expected actual code =>
    braced "FormatError" [("parameter", Text.quoted parameter), ("expected", Text.quoted expected),
      ("actual", Text.quoted actual), ("error_code", Decimal.text code)]
  | decode artifact cause code =>
    braced "DecodeError" [("artifact", Text.quoted artifact), ("cause", Text.quoted cause),
      ("error_code", Decimal.text code)]
  | crypto operation cause code =>
    braced "CryptoError" [("operation", Text.quoted operation), ("cause", Text.quoted cause),
      ("error_code", Decimal.text code)]
  | io kind text =>
    "IoError(" ++ braced "Custom" [("kind", kind.name), ("error", Text.quoted text)] ++ ")"

end Report

end KeyCustody
