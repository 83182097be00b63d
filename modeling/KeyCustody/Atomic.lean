import KeyCustody.Program
/-! # Atomic replacement of files

A file is replaced by a temporary file in its directory that has been filled and stored before it is
moved, so that readers see either the old contents or all of the new ones. A temporary file that is not
moved is discarded. -/

namespace KeyCustody

/-- What a file is filled with, piece by piece, and the fault that comes after it, if any. -/
structure Filling where
  pieces : List Bytes
  fault : Option IoFault

namespace Atomic

/-- Whether a path is one that is always there: the root or the empty path. -/
def isGiven (p : Path) : Bool := p.text == "" || p.parent?.isNone

/-- Makes a directory, or takes it as it is if it is there already. -/
def ensureDirectory (p : Path) : Program (IoResult Unit) := do
  match ← Program.makeDirectory p .done with
  | .ok () => return .ok ()
  | .error fault =>
    if fault.kind = .alreadyExists then
      if ← Program.isDirectory p .done then return .ok () else return .error fault
    else return .error fault

/-- Makes the first directory of a list that has a parent. The result are those before it, which
are still missing, the outermost one first. -/
def climb : List Path → Program (IoResult (List Path))
  | [] => return .ok []
  | p :: ps => do
    if isGiven p then return .ok []
    match ← ensureDirectory p with
    | .ok () => return .ok []
    | .error fault =>
      if fault.kind = .notFound then
        match ← climb ps with
        | .ok missing => return .ok (missing ++ [p])
        | .error fault => return .error fault
      else return .error fault

def ensureDirectories : List Path → Program (IoResult Unit)
  | [] => return .ok ()
  | p :: ps => do
    match ← ensureDirectory p with
    | .ok () => ensureDirectories ps
    | .error fault => return .error fault

/-- Makes a directory and those above it that are missing. -/
def ensurePath (p : Path) : Program (IoResult Unit) := do
  match ← climb p.ancestors with
  | .ok missing => ensureDirectories missing
  | .error fault => return .error fault

def appendAll (file : Temporary) : List Bytes → Program (IoResult Unit)
  | [] => return .ok ()
  | piece :: pieces => do
    match ← Program.append file piece .done with
    | .ok () => appendAll file pieces
    | .error fault => return .error fault

/-- Fills and stores a temporary file and moves it to a path. -/
def fillAndMove (file : Temporary) (path : Path) (filling : Filling) : Program (IoResult Unit) := do
  match ← appendAll file filling.pieces with
  | .error fault => return .error fault
  | .ok () =>
    match filling.fault with
    | some fault => return .error fault
    | none =>
      match ← Program.sync file .done with
      | .error fault => return .error fault
      | .ok () => Program.move file path .done

/-- The directory that a path lies in, if it names one. -/
def directoryOf? (path : Path) : Option Path := path.parent?.filter fun p => p.text != ""

/-- Replaces the file at a path, in a directory that is there. -/
def replaceIn (directory path : Path) (filling : Filling) : Program (IoResult Unit) := do
  match ← Program.makeTemporary directory .done with
  | .error fault => return .error fault
  | .ok file =>
    match ← fillAndMove file path filling with
    | .ok () => return .ok ()
    | .error fault =>
      Program.discard file fun _ => .done ()
      return .error fault

/-- Replaces the file at a path; missing directories are made first. -/
def replaceWith (path : Path) (filling : Filling) : Action Unit :=
  Action.ofCall do
    match directoryOf? path with
    | none => replaceIn ⟨"."⟩ path filling
    | some directory =>
      match ← ensurePath directory with
      | .ok () => replaceIn directory path filling
      | .error fault => return .error fault

def replace (path : Path) (contents : Bytes) : Action Unit := replaceWith path ⟨[contents], none⟩

end Atomic

end KeyCustody
