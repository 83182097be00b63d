import KeyCustody.Bytes.Basic
import KeyCustody.Program
/-! # Passwords

A password is given by the caller or asked for. A new one is asked for twice, until both entries agree
or the attempts are used up. Prompts name a key by the last component of its path only. -/

namespace KeyCustody.Password

def confirmPrompt : String := "Confirm: "

def mismatchNotice : String := "Mismatch; try again."

def creationPrompt (keytype : KeyType) (path : Path) : String :=
  match keytype with
  | .rsa => "Enter a password for the encrypted RSA key (" ++ path.displayName ++ "): "
  | _ => "Enter a password for the " ++ keytype.label ++ " key (" ++ path.displayName ++ "): "

def importPrompt (keytype : KeyType) (path : Path) : String :=
  match keytype with
  | .rsa => "Enter a password for the encrypted RSA file (" ++ path.displayName ++ "): "
  | _ =>
    "Enter a password for the encrypted " ++ keytype.label ++ " key (" ++ path.displayName ++ "): "

def agree (a b : String) : Bool := Bytes.sameSecret (Text.utf8 a) (Text.utf8 b)

/-- A password entered twice in `left` attempts, of which there are `attempts` in all. -/
def confirmed (prompt : String) (attempts : Nat) : (left : Nat) → Action String
  | 0 => throw (.passwordMismatch attempts)
  | left + 1 => do
    let first ← Action.prompt prompt
    let second ← Action.prompt confirmPrompt
    if agree first second then return first
    Action.noteMismatch
    confirmed prompt attempts left

/-- The password that is given, if one is; otherwise one that is asked for, twice if it is to be
confirmed. -/
def acquire (given : Option String) (prompt : String) (confirm : Bool) (attempts : Nat) :
    Action String :=
  match given with
  | some password => return password
  | none => if confirm then confirmed prompt attempts attempts else Action.prompt prompt

end KeyCustody.Password
