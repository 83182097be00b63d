import KeyCustody.Path
/-! # Programs of calls to the host

What the operations on key files do, as trees of calls: each call to the host is a node, and goes on
with the host's answer. The host is the file system, the source of random bytes and whoever answers
password prompts. Programs are run on a `World` or on the machine. -/

namespace KeyCustody

structure IoFault where
  kind : IoKind
  text : String
deriving DecidableEq, Repr

def IoKind.fault (kind : IoKind) : IoFault := ⟨kind, kind.text⟩

abbrev IoResult (α : Type) := Except IoFault α

/-- A temporary file by its place, names from the innermost one outwards. -/
structure Temporary where
  location : List String
deriving DecidableEq, Repr

/-- A tree of calls. -/
inductive Program (α : Type) where
  | done (a : α)
  | workingDirectory (next : IoResult Path → Program α)
  /-- Asks for a password. -/
  | prompt (text : String) (next : IoResult String → Program α)
  /-- Says that two entries of a password differ. -/
  | noteMismatch (next : Unit → Program α)
  | random (count : Nat) (next : Option Bytes → Program α)
  | readBytes (path : Path) (next : IoResult Bytes → Program α)
  | makeDirectory (path : Path) (next : IoResult Unit → Program α)
  | isDirectory (path : Path) (next : Bool → Program α)
  /-- Makes an empty file under a fresh name in a directory. -/
  | makeTemporary (directory : Path) (next : IoResult Temporary → Program α)
  | append (file : Temporary) (contents : Bytes) (next : IoResult Unit → Program α)
  /-- Makes sure that what was appended is stored. -/
  | sync (file : Temporary) (next : IoResult Unit → Program α)
  /-- Moves a temporary file to a path, in place of the file that was there. -/
  | move (file : Temporary) (path : Path) (next : IoResult Unit → Program α)
  | discard (file : Temporary) (next : Unit → Program α)

namespace Program

variable {α β : Type}

/-- A program followed by another one that depends on its result. -/
def bind : Program α → (α → Program β) → Program β
  | done a, f => f a
  | workingDirectory next, f => workingDirectory fun r => bind (next r) f
  | prompt text next, f => prompt text fun r => bind (next r) f
  | noteMismatch next, f => noteMismatch fun r => bind (next r) f
  | random count next, f => random count fun r => bind (next r) f
  | readBytes path next, f => readBytes path fun r => bind (next r) f
  | makeDirectory path next, f => makeDirectory path fun r => bind (next r) f
  | isDirectory path next, f => isDirectory path fun r => bind (next r) f
  | makeTemporary directory next, f => makeTemporary directory fun r => bind (next r) f
  | append file contents next, f => append file contents fun r => bind (next r) f
  | sync file next, f => sync file fun r => bind (next r) f
  | move file path next, f => move file path fun r => bind (next r) f
  | discard file next, f => discard file fun r => bind (next r) f

instance : Monad Program where
  pure := done
  bind := bind

@[simp] theorem pure_eq_done (a : α) : (pure a : Program α) = done a := rfl

@[simp] theorem bind_done (a : α) (f : α → Program β) : (done a >>= f) = f a := rfl

end Program

/-- A program that may fail. -/
abbrev Action (α : Type) := ExceptT Failure Program α

namespace Action

variable {α : Type}

/-- A program that cannot fail as an action. -/
def ofProgram (p : Program α) : Action α := ExceptT.lift p

def ofOutcome (r : Outcome α) : Action α := ExceptT.mk (pure r)

/-- The failure that a refused call is. -/
def failureOf (f : IoFault) : Failure := .io f.kind f.text

/-- The answer of a call, or a failure if it was refused. -/
def ofCall (p : Program (IoResult α)) : Action α :=
  ExceptT.mk (p >>= fun r => pure (r.mapError failureOf))

def workingDirectory : Action Path := ofCall (.workingDirectory .done)

def prompt (text : String) : Action String := ofCall (.prompt text .done)

def noteMismatch : Action Unit := ofProgram (.noteMismatch .done)

def random (count : Nat) : Action Bytes := do
  match ← ofProgram (.random count .done) with
  | some b => return b
  | none => throw .noEntropy

def readBytes (path : Path) : Action Bytes := ofCall (.readBytes path .done)

def readText (path : Path) : Action String := do
  match Text.ofUtf8? (← readBytes path) with
  | some text => return text
  | none => throw (failureOf IoKind.notText.fault)

end Action

end KeyCustody
