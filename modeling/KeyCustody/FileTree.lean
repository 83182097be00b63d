import KeyCustody.Path
/-! # File trees

Directories and files by their places below the root, and what happens when paths are followed in
them. Paths are followed segment by segment: a segment that is empty or a dot stays where it is, two
dots go up, and a name has to be there, and to be a directory if more segments follow. There are no links, and
whoever works on the tree may read and change all of it: permissions are left out. -/

namespace KeyCustody

/-- A place below the root: names from the innermost one outwards. -/
abbrev Location := List String

inductive Entry where
  | directory
  | file (contents : Bytes)
deriving DecidableEq, Repr

/-- The entries of a tree, without the root, which is always there. -/
structure FileTree where
  entries : List (Location × Entry)
deriving DecidableEq, Repr

namespace FileTree

def empty : FileTree := ⟨[]⟩

def lookup (t : FileTree) : Location → Option Entry
  | [] => some .directory
  | l => t.entries.lookup l

def erase (t : FileTree) (l : Location) : FileTree := ⟨t.entries.filter fun e => e.1 != l⟩

def insert (t : FileTree) (l : Location) (e : Entry) : FileTree := ⟨(l, e) :: (t.erase l).entries⟩

def maxPath : Nat := 4095

def maxName : Nat := 255

/-- The segments of a path that is neither empty nor too long and has no zero character, which no
path of a file system has. -/
def segments (p : Path) : Except IoKind (List String) :=
  if '\x00' ∈ p.text.toList then .error .other
  else if p.text = "" then .error .notFound
  else if p.text.utf8ByteSize > maxPath then .error .nameTooLong
  else .ok ((Path.segments p.text.toList).map String.ofList)

/-- Where the segments of a path are followed from, given the current directory. -/
def origin (here : Location) (p : Path) : Location := if p.isAbsolute then [] else here

/-- The place that segments lead to from a directory. -/
def follow (t : FileTree) : Location → List String → Except IoKind Location
  | l, [] => .ok l
  | l, s :: ss =>
    if s = "" ∨ s = "." then follow t l ss
    else if s = ".." then follow t l.tail ss
    else if s.utf8ByteSize > maxName then .error .nameTooLong
    else
      match t.lookup (s :: l) with
      | none => .error .notFound
      | some .directory => follow t (s :: l) ss
      | some (.file _) => if ss.isEmpty then .ok (s :: l) else .error .notADirectory

def resolve (t : FileTree) (here : Location) (p : Path) : Except IoKind Location := do
  t.follow (origin here p) (← segments p)

def resolveDirectory (t : FileTree) (here : Location) (p : Path) : Except IoKind Location := do
  let l ← t.resolve here p
  match t.lookup l with
  | some .directory => return l
  | some (.file _) => throw .notADirectory
  | none => throw .notFound

/-- Where the last segment of a path is looked for, that segment, and whether slashes follow it. -/
structure Target where
  directory : Location
  last : String
  slashes : Bool

/-- The last segment of a path and the directory that the others lead to. A path of slashes alone has
an empty last segment. -/
def target (t : FileTree) (here : Location) (p : Path) : Except IoKind Target := do
  let ss ← segments p
  let reversed := ss.reverse.dropWhile (· == "")
  let directory ← t.follow (origin here p) (reversed.tail.reverse ++ [""])
  return ⟨directory, reversed.headD "", ss.getLast? == some ""⟩

/-- Whether a last segment names an entry of its directory. -/
def Target.isName (g : Target) : Bool := g.last != "" && g.last != "." && g.last != ".."

def read (t : FileTree) (here : Location) (p : Path) : Except IoKind Bytes := do
  match t.lookup (← t.resolve here p) with
  | some (.file contents) => return contents
  | some .directory => throw .isADirectory
  | none => throw .notFound

def isDirectory (t : FileTree) (here : Location) (p : Path) : Bool :=
  match t.resolveDirectory here p with
  | .ok _ => true
  | .error _ => false

def makeDirectory (t : FileTree) (here : Location) (p : Path) : Except IoKind FileTree := do
  let g ← t.target here p
  if !g.isName then throw .alreadyExists
  if g.last.utf8ByteSize > maxName then throw .nameTooLong
  match t.lookup (g.last :: g.directory) with
  | some _ => throw .alreadyExists
  | none => return t.insert (g.last :: g.directory) .directory

def write (t : FileTree) (here : Location) (p : Path) (contents : Bytes) :
    Except IoKind FileTree := do
  let g ← t.target here p
  if !g.isName ∨ g.slashes then throw .isADirectory
  if g.last.utf8ByteSize > maxName then throw .nameTooLong
  match t.lookup (g.last :: g.directory) with
  | some .directory => throw .isADirectory
  | _ => return t.insert (g.last :: g.directory) (.file contents)

def remove (t : FileTree) (here : Location) (p : Path) : Except IoKind FileTree := do
  let l ← t.resolve here p
  match t.lookup l with
  | some (.file _) => return t.erase l
  | some .directory => throw .isADirectory
  | none => throw .notFound

def move (t : FileTree) (here : Location) (source : Location) (p : Path) :
    Except IoKind FileTree := do
  let g ← t.target here p
  if !g.isName then throw .busy
  if g.last.utf8ByteSize > maxName then throw .nameTooLong
  if g.slashes then throw .notADirectory
  match t.lookup source, t.lookup (g.last :: g.directory) with
  | none, _ => throw .notFound
  | some _, some .directory => throw .isADirectory
  | some e, _ => return (t.erase source).insert (g.last :: g.directory) e

def temporaryName (n : Nat) : String := ".tmp" ++ Decimal.text n

/-- A place in a directory that is not taken; among one more names than there are entries, one is
free. -/
def freshLocation (t : FileTree) (directory : Location) : Location :=
  let names := (List.range (t.entries.length + 1)).map temporaryName
  ((names.find? fun name => (t.lookup (name :: directory)).isNone).getD "") :: directory

/-- An empty file at a fresh place in the directory that a path leads to. -/
def makeTemporary (t : FileTree) (here : Location) (p : Path) :
    Except IoKind (Location × FileTree) := do
  let l := t.freshLocation (← t.resolveDirectory here p)
  return (l, t.insert l (.file []))

def append (t : FileTree) (l : Location) (contents : Bytes) : FileTree :=
  match t.lookup l with
  | some (.file before) => t.insert l (.file (before ++ contents))
  | _ => t

/-- The entries below a directory by their relative paths, those of directories with a slash at the
end. -/
def below (t : FileTree) (directory : Location) : List String :=
  t.entries.filterMap fun (l, e) =>
    let names := l.take (l.length - directory.length)
    if names ≠ [] ∧ l.drop names.length = directory then
      let path := "/".intercalate names.reverse
      some (match e with
        | .directory => path ++ "/"
        | .file _ => path)
    else none

end FileTree

end KeyCustody
