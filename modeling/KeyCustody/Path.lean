import KeyCustody.Failure
/-! # Paths

A path is a text; slashes separate its segments. Empty segments and segments that are a single dot
are idle, except that a dot at the very start stands for the current directory. The other segments
are the components of the path, after the root or the current directory. -/

namespace KeyCustody

structure Path where
  text : String
deriving DecidableEq, Repr

namespace Path

def segments : List Char → List (List Char)
  | [] => [[]]
  | '/' :: cs => [] :: segments cs
  | c :: cs =>
    match segments cs with
    | s :: ss => (c :: s) :: ss
    | [] => [[c]]

def joinSegments (ss : List (List Char)) : List Char := ['/'].intercalate ss

/-- A segment that names nothing. -/
def isIdle (s : List Char) : Bool := s == [] || s == ['.']

inductive Start where
  | root
  /-- A dot at the start. -/
  | here
  | nowhere
deriving DecidableEq, Repr

def Start.chars : Start → List Char
  | root => ['/']
  | here => ['.']
  | nowhere => []

def split : List Char → Start × List Char
  | '/' :: cs => (.root, cs)
  | ['.'] => (.here, [])
  | '.' :: '/' :: cs => (.here, '/' :: cs)
  | cs => (.nowhere, cs)

inductive Component where
  | root
  | here
  | up
  | name (text : String)
deriving DecidableEq, Repr

namespace Component

def ofSegment (s : List Char) : Component :=
  if s = ['.', '.'] then up else name (String.ofList s)

def text : Component → String
  | root => "/"
  | here => "."
  | up => ".."
  | name text => text

end Component

def Start.components : Start → List Component
  | root => [.root]
  | here => [.here]
  | nowhere => []

/-- The segments of a body that name something. -/
def named (body : List Char) : List (List Char) := (segments body).filter fun s => !isIdle s

def components (p : Path) : List Component :=
  let (start, body) := split p.text.toList
  start.components ++ (named body).map Component.ofSegment

def isAbsolute (p : Path) : Bool := p.text.toList.head? == some '/'

/-- The last component as it is shown to users. -/
def displayName (p : Path) : String := (p.components.getLast?.map Component.text).getD ""

/-- The last component, if it is a name. -/
def fileName? (p : Path) : Option String :=
  match p.components.getLast? with
  | some (.name text) => some text
  | _ => none

/-- Segments without idle ones at the end. -/
def trimEnd (ss : List (List Char)) : List (List Char) := (ss.reverse.dropWhile isIdle).reverse

/-- The path without its last component, unless it is the root or empty. -/
def parent? (p : Path) : Option Path :=
  let (start, body) := split p.text.toList
  match (segments body).reverse.dropWhile isIdle with
  | _ :: others => some ⟨String.ofList (start.chars ++ joinSegments (trimEnd others.reverse))⟩
  | [] => if start = .here then some ⟨""⟩ else none

/-- The path and those that remain when components are taken off its end. -/
def ancestorsUpTo : (count : Nat) → Path → List Path
  | 0, p => [p]
  | count + 1, p =>
    match p.parent? with
    | some q => p :: ancestorsUpTo count q
    | none => [p]

def ancestors (p : Path) : List Path := ancestorsUpTo p.components.length p

/-- A path below a directory; an absolute path stays as it is. -/
def join (directory p : Path) : Path :=
  if p.isAbsolute then p
  else if directory.text = "" ∨ directory.text.toList.getLast? = some '/' then
    ⟨directory.text ++ p.text⟩
  else ⟨directory.text ++ "/" ++ p.text⟩

def publicKey (p : Path) : Path := ⟨p.text ++ ".pub"⟩

/-- Segments after `count` of those that name something. -/
def dropNamed : (count : Nat) → List (List Char) → List (List Char)
  | 0, ss => ss
  | _ + 1, [] => []
  | count + 1, s :: ss => if isIdle s then dropNamed (count + 1) ss else dropNamed count ss

/-- What is left of a path after the components of another one, if it begins with them. -/
def relativeTo? (p base : Path) : Option Path :=
  let (start, body) := split p.text.toList
  let taken := base.components
  if taken = [] then some ⟨String.ofList (start.chars ++ joinSegments (trimEnd (segments body)))⟩
  else if taken.isPrefixOf p.components then
    let rest := dropNamed (taken.length - start.components.length) (segments body)
    some ⟨String.ofList (joinSegments (trimEnd (rest.dropWhile isIdle)))⟩
  else none

/-- A path as it is shown to users: relative paths as they are, absolute ones relative to a base
directory if they lie below it, and otherwise the last component only. -/
def relativeDisplay (p base : Path) : String :=
  if !p.isAbsolute then p.text
  else
    match p.relativeTo? base with
    | some rest => if rest.text = "" then p.displayName else rest.text
    | none => p.displayName

/-- A path at which a key can be kept has a file name at its end. -/
def check (p : Path) : Outcome Unit :=
  if p.text = "" then .error .emptyPath
  else if p.fileName?.isNone then .error (.namelessPath p.displayName)
  else .ok ()

end Path

end KeyCustody
