import KeyCustody.FileTree
import KeyCustody.Program
/-! # Worlds

A host as a value: a file tree with a current directory, the answers that password prompts will get, a
record of the prompts, and a stream of random bytes. -/

namespace KeyCustody

structure World where
  tree : FileTree
  /-- The current directory. -/
  here : Location
  /-- What will be entered at password prompts. -/
  answers : List String
  /-- The prompts shown so far. -/
  prompts : List String
  /-- How often two entries of a password were said to differ. -/
  mismatches : Nat
  /-- The stream of random bytes. -/
  randomness : Nat → UInt8
  /-- How many of them have been drawn. -/
  drawn : Nat

namespace World

/-- A world with the empty directory `here`, and those around it. -/
def start (here : Location) (answers : List String) (randomness : Nat → UInt8) : World where
  tree := ⟨(List.range here.length).map fun n => (here.drop n, .directory)⟩
  here := here
  answers := answers
  prompts := []
  mismatches := 0
  randomness := randomness
  drawn := 0

def pathOf (l : Location) : Path := ⟨"/" ++ "/".intercalate l.reverse⟩

/-- What a prompt gets when no answer is left. -/
def noAnswer : IoFault := ⟨.inputExhausted, "no scripted password left to answer the prompt"⟩

/-- A call's answer in the wording of faults. -/
def answer {α : Type} (r : Except IoKind α) : IoResult α := r.mapError IoKind.fault

/-- The answer to a call that changes the tree, and the world after it. -/
def change (w : World) (r : Except IoKind FileTree) : IoResult Unit × World :=
  match r with
  | .ok tree => (.ok (), { w with tree := tree })
  | .error kind => (.error kind.fault, w)

def draw (w : World) (count : Nat) : Bytes :=
  (List.range count).map fun i => w.randomness (w.drawn + i)

end World

/-- The result of a program in a world, and the world after it. -/
def Program.run {α : Type} : Program α → World → α × World
  | done a, w => (a, w)
  | workingDirectory next, w => (next (.ok (World.pathOf w.here))).run w
  | prompt text next, w =>
    let w := { w with prompts := w.prompts ++ [text] }
    match w.answers with
    | [] => (next (.error World.noAnswer)).run w
    | a :: rest => (next (.ok a)).run { w with answers := rest }
  | noteMismatch next, w => (next ()).run { w with mismatches := w.mismatches + 1 }
  | random count next, w => (next (some (w.draw count))).run { w with drawn := w.drawn + count }
  | readBytes path next, w => (next (World.answer (w.tree.read w.here path))).run w
  | makeDirectory path next, w =>
    let (r, w) := w.change (w.tree.makeDirectory w.here path)
    (next r).run w
  | isDirectory path next, w => (next (w.tree.isDirectory w.here path)).run w
  | makeTemporary directory next, w =>
    match w.tree.makeTemporary w.here directory with
    | .ok (l, tree) => (next (.ok ⟨l⟩)).run { w with tree := tree }
    | .error kind => (next (.error kind.fault)).run w
  | append file contents next, w =>
    (next (.ok ())).run { w with tree := w.tree.append file.location contents }
  | sync _ next, w => (next (.ok ())).run w
  | move file path next, w =>
    let (r, w) := w.change (w.tree.move w.here file.location path)
    (next r).run w
  | discard file next, w => (next ()).run { w with tree := w.tree.erase file.location }

/-- The outcome of an action in a world, and the world after it. -/
def Action.runIn {α : Type} (action : Action α) (w : World) : Outcome α × World :=
  Program.run (ExceptT.run action) w

end KeyCustody
