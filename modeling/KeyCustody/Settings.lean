import KeyCustody.Failure
import KeyCustody.Key.Kind
/-! # Settings

What the operations on keys consult: iteration counts, sizes of RSA keys, hash algorithms and the
number of attempts at a password. A settings document names some of the fields; the others keep their
defaults. -/

namespace KeyCustody

structure Settings where
  /-- Attached to private keys that are read, except RSA keys. -/
  hashAlgorithms : List HashAlgorithm := [.sha256, .sha512]
  /-- The iteration count under which private keys are encrypted. -/
  iterations : UInt32 := 100000
  /-- The greatest iteration count accepted from an envelope. -/
  maxIterations : UInt32 := 10000000
  rsaMinBits : UInt64 := 2048
  rsaMaxBits : Option UInt64 := none
  rsaDefaultBits : UInt64 := 3072
  /-- How often two unequal entries of a new password are accepted. -/
  maxPasswordAttempts : UInt32 := 3
deriving DecidableEq, Repr

namespace Settings

def default : Settings := {}

def lowResource : Settings := { iterations := 10000, rsaDefaultBits := 2048 }

/-- Whether an RSA key may have so many bits. -/
def allowsRsaBits (s : Settings) (bits : Nat) : Bool :=
  s.rsaMinBits.toNat ≤ bits && s.rsaMaxBits.all fun most => bits ≤ most.toNat

/-- The first of the reasons to refuse the settings. -/
def fault? (s : Settings) : Option SettingsFault :=
  if s.iterations = 0 then some .noIterations
  else if s.maxIterations < s.iterations then
    some (.ceilingBelow s.iterations.toNat s.maxIterations.toNat)
  else
    let crossed := s.rsaMaxBits.filter fun most => most < s.rsaMinBits
    match crossed with
    | some most => some (.boundsCrossed s.rsaMinBits.toNat most.toNat)
    | none =>
      if !s.allowsRsaBits s.rsaDefaultBits.toNat then
        some (.defaultOutOfBounds s.rsaDefaultBits.toNat s.rsaMinBits.toNat)
      else if s.maxPasswordAttempts = 0 then some .noAttempts
      else none

/-- Refuses settings under which some operation would always fail. -/
def validate (s : Settings) : Outcome Unit :=
  match s.fault? with
  | some fault => .error (.settings fault)
  | none => .ok ()

/-- Whether an RSA key may have so many bits, and if not, why. -/
def checkRsaBits (s : Settings) (bits : Nat) : Outcome Unit :=
  Outcome.require (s.allowsRsaBits bits)
    (.rsaSize bits s.rsaMinBits.toNat (s.rsaMaxBits.map UInt64.toNat))

/-- The names of the fields in a settings document. -/
def json (s : Settings) : Json.Value :=
  let natural (n : Nat) : Json.Value := .number (.natural n)
  .object [
    ("hash_algorithms", .list (s.hashAlgorithms.map fun a => .string a.name)),
    ("pbkdf2_iterations", natural s.iterations.toNat),
    ("max_pbkdf2_iterations", natural s.maxIterations.toNat),
    ("rsa_min_bits", natural s.rsaMinBits.toNat),
    ("rsa_max_bits", (s.rsaMaxBits.map fun most => natural most.toNat).getD .null),
    ("default_rsa_bits", natural s.rsaDefaultBits.toNat),
    ("max_password_attempts", natural s.maxPasswordAttempts.toNat)]

def word32 : Json.Reader UInt32 := fun rest => do
  let (n, rest) ← Json.naturalBelow (Nat.pow 2 32) "u32" rest
  return (UInt32.ofNat n, rest)

def word64 : Json.Reader UInt64 := fun rest => do
  let (n, rest) ← Json.naturalBelow (Nat.pow 2 64) "usize" rest
  return (UInt64.ofNat n, rest)

structure Draft where
  hashAlgorithms : Option (List HashAlgorithm) := none
  iterations : Option UInt32 := none
  maxIterations : Option UInt32 := none
  rsaMinBits : Option UInt64 := none
  rsaMaxBits : Option (Option UInt64) := none
  rsaDefaultBits : Option UInt64 := none
  maxPasswordAttempts : Option UInt32 := none

/-- The settings with defaults for the fields that were not read. -/
def Draft.settings (d : Draft) : Settings where
  hashAlgorithms := d.hashAlgorithms.getD default.hashAlgorithms
  iterations := d.iterations.getD default.iterations
  maxIterations := d.maxIterations.getD default.maxIterations
  rsaMinBits := d.rsaMinBits.getD default.rsaMinBits
  rsaMaxBits := d.rsaMaxBits.getD default.rsaMaxBits
  rsaDefaultBits := d.rsaDefaultBits.getD default.rsaDefaultBits
  maxPasswordAttempts := d.maxPasswordAttempts.getD default.maxPasswordAttempts

def layout : Json.Layout Draft Settings where
  title := "Settings"
  fields := [
    Json.Field.of "hash_algorithms" Draft.hashAlgorithms (Json.listOf HashAlgorithm.reader)
      fun d x => { d with hashAlgorithms := some x },
    Json.Field.of "pbkdf2_iterations" Draft.iterations word32
      fun d x => { d with iterations := some x },
    Json.Field.of "max_pbkdf2_iterations" Draft.maxIterations word32
      fun d x => { d with maxIterations := some x },
    Json.Field.of "rsa_min_bits" Draft.rsaMinBits word64
      fun d x => { d with rsaMinBits := some x },
    Json.Field.of "rsa_max_bits" Draft.rsaMaxBits (Json.optional word64)
      fun d x => { d with rsaMaxBits := some x },
    Json.Field.of "default_rsa_bits" Draft.rsaDefaultBits word64
      fun d x => { d with rsaDefaultBits := some x },
    Json.Field.of "max_password_attempts" Draft.maxPasswordAttempts word32
      fun d x => { d with maxPasswordAttempts := some x }]
  empty := {}
  build := fun d => .ok d.settings

def parse (text : Bytes) : Outcome Settings := do
  let s ← (Json.whole layout.read text).mapError Failure.settingsText
  s.validate
  return s

end Settings

end KeyCustody
