import KeyCustody.Custodian
/-! # The command line

Makes a key of a named kind, writes it and says where its halves are. -/

namespace KeyCustody.CommandLine

def usage : String := "usage: keysmith <rsa|ed25519|ecdsa> [filepath]"

/-- What a run leaves: its exit code and what it prints, apart from prompts and notices. -/
structure Result where
  exit : UInt32
  stdout : String
  stderr : String
deriving DecidableEq, Repr

inductive Command where
  | rsa
  | ed25519
  | ecdsa
deriving DecidableEq, Repr

def Command.ofName? (name : String) : Option Command :=
  [("rsa", rsa), ("ed25519", ed25519), ("ecdsa", ecdsa)].lookup name

def Command.action (c : Custodian) (path : Option Path) : Command → Action Path
  | rsa => c.generateRsa path none none
  | ed25519 => c.generateEd25519 path none
  | ecdsa => c.generateEcdsa path none

/-- Writes a new key and says where its halves are. -/
def generate (command : Command) (path : Option Path) : Action String := do
  let c ← Action.ofOutcome (Custodian.ofSettings Settings.default)
  let written ← command.action c path
  let here ← Action.workingDirectory
  return "Private key: " ++ written.relativeDisplay here ++ "\nPublic key:  " ++
    written.publicKey.relativeDisplay here ++ "\n"

def run (arguments : List String) : Program Result :=
  let misuse (line : String) : Program Result := return ⟨2, "", line ++ usage ++ "\n"⟩
  let start (name : String) (path : Option Path) : Program Result :=
    match Command.ofName? name with
    | none => misuse ("Unknown key type '" ++ name ++ "'\n")
    | some command => do
      match ← (generate command path).run with
      | .ok text => return ⟨0, text, ""⟩
      | .error failure =>
        let report := failure.report
        return ⟨1, "", "Error: " ++ report.message ++ "\n" ++ report.friendly ++ "\n"⟩
  match arguments with
  | [name] => start name none
  | [name, path] => start name (some ⟨path⟩)
  | _ => misuse ""

end KeyCustody.CommandLine
