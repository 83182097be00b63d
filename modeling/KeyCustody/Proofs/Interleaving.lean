import KeyCustody.World
import KeyCustody.Proofs.FileTree
import Mathlib.Logic.Function.Basic
import Mathlib.Logic.Relation
/-! # Programs that share a file tree

Programs that run side by side take turns, and a turn is one call to the host. The host performs the call
on the tree that it finds, or refuses it with whatever fault it likes. A program alone takes all its turns
at once; if it is never refused it comes to what `run` says. -/

namespace KeyCustody

/-- What the host says to a call: the answer that the call has, or a fault. -/
inductive Answers {β : Type} (answer : IoResult β) : IoResult β → Prop
  | given : Answers answer answer
  | refused (fault : IoFault) : Answers answer (.error fault)

theorem World.length_of_draw (w : World) (count : Nat) :
    ∀ bytes, some (w.draw count) = some bytes → bytes.length = count := by
  rintro _ ⟨⟩
  simp [World.draw]

namespace Program

variable {α : Type} {here : Location} {fresh : String → Prop}

/-- One turn of a program: the tree and the rest of the program after the next call, and whether that
call moved a temporary file to its path. A temporary file has a `fresh` name that is free in its
directory. Contents that are refused may have been stored in part. -/
inductive Step (here : Location) (fresh : String → Prop) :
    FileTree → Program α → Bool → FileTree → Program α → Prop
  | workingDirectory {t : FileTree} {next : IoResult Path → Program α} {r : IoResult Path}
      (hr : Answers (.ok (World.pathOf here)) r) :
      Step here fresh t (.workingDirectory next) false t (next r)
  | prompt {t : FileTree} {text : String} {next : IoResult String → Program α} (r : IoResult String) :
      Step here fresh t (.prompt text next) false t (next r)
  | noteMismatch {t : FileTree} {next : Unit → Program α} :
      Step here fresh t (.noteMismatch next) false t (next ())
  | random {t : FileTree} {count : Nat} {next : Option Bytes → Program α} {r : Option Bytes}
      (hr : ∀ bytes, r = some bytes → bytes.length = count) :
      Step here fresh t (.random count next) false t (next r)
  | readBytes {t : FileTree} {path : Path} {next : IoResult Bytes → Program α} {r : IoResult Bytes}
      (hr : Answers (World.answer (t.read here path)) r) :
      Step here fresh t (.readBytes path next) false t (next r)
  | makeDirectory {t t' : FileTree} {path : Path} {next : IoResult Unit → Program α}
      (ht : t.makeDirectory here path = .ok t') :
      Step here fresh t (.makeDirectory path next) false t' (next (.ok ()))
  | makeDirectory_refused {t : FileTree} {path : Path} {next : IoResult Unit → Program α}
      (fault : IoFault) : Step here fresh t (.makeDirectory path next) false t (next (.error fault))
  | isDirectory {t : FileTree} {path : Path} {next : Bool → Program α} {r : Bool}
      (hr : r = true → t.isDirectory here path = true) :
      Step here fresh t (.isDirectory path next) false t (next r)
  | makeTemporary {t : FileTree} {directory : Path} {next : IoResult Temporary → Program α}
      {name : String} {d : Location} (hd : t.resolveDirectory here directory = .ok d)
      (hname : fresh name) (hfree : t.lookup (name :: d) = none) :
      Step here fresh t (.makeTemporary directory next) false (t.insert (name :: d) (.file []))
        (next (.ok ⟨name :: d⟩))
  | makeTemporary_refused {t : FileTree} {directory : Path} {next : IoResult Temporary → Program α}
      (fault : IoFault) :
      Step here fresh t (.makeTemporary directory next) false t (next (.error fault))
  | append {t : FileTree} {file : Temporary} {contents : Bytes} {next : IoResult Unit → Program α} :
      Step here fresh t (.append file contents next) false (t.append file.location contents)
        (next (.ok ()))
  | append_refused {t : FileTree} {file : Temporary} {contents stored : Bytes}
      {next : IoResult Unit → Program α} (hstored : stored <+: contents) (fault : IoFault) :
      Step here fresh t (.append file contents next) false (t.append file.location stored)
        (next (.error fault))
  | sync {t : FileTree} {file : Temporary} {next : IoResult Unit → Program α} {r : IoResult Unit}
      (hr : Answers (.ok ()) r) : Step here fresh t (.sync file next) false t (next r)
  | move {t t' : FileTree} {file : Temporary} {path : Path} {next : IoResult Unit → Program α}
      (ht : t.move here file.location path = .ok t') :
      Step here fresh t (.move file path next) true t' (next (.ok ()))
  | move_refused {t : FileTree} {file : Temporary} {path : Path} {next : IoResult Unit → Program α}
      (fault : IoFault) : Step here fresh t (.move file path next) false t (next (.error fault))
  | discard {t : FileTree} {file : Temporary} {next : Unit → Program α} :
      Step here fresh t (.discard file next) false (t.erase file.location) (next ())

/-! ## Running alone -/

/-- A program that takes all its turns at once ends with a tree and a result. -/
inductive Ends (here : Location) (fresh : String → Prop) :
    FileTree → Program α → FileTree → α → Prop
  | done {t : FileTree} {a : α} : Ends here fresh t (.done a) t a
  | turn {t t' t'' : FileTree} {p p' : Program α} {moves : Bool} {a : α}
      (hstep : Step here fresh t p moves t' p') (h : Ends here fresh t' p' t'' a) :
      Ends here fresh t p t'' a

variable {β : Type} {t t' : FileTree} {p p' : Program α} {moves : Bool}

theorem Step.bind (h : Step here fresh t p moves t' p') (f : α → Program β) :
    Step here fresh t (p >>= f) moves t' (p' >>= f) := by
  cases h with
  | workingDirectory hr => exact .workingDirectory hr
  | prompt r => exact .prompt r
  | noteMismatch => exact .noteMismatch
  | random hr => exact .random hr
  | readBytes hr => exact .readBytes hr
  | makeDirectory ht => exact .makeDirectory ht
  | makeDirectory_refused fault => exact .makeDirectory_refused fault
  | isDirectory hr => exact .isDirectory hr
  | makeTemporary hd hname hfree => exact .makeTemporary hd hname hfree
  | makeTemporary_refused fault => exact .makeTemporary_refused fault
  | append => exact .append
  | append_refused hstored fault => exact .append_refused hstored fault
  | sync hr => exact .sync hr
  | move ht => exact .move ht
  | move_refused fault => exact .move_refused fault
  | discard => exact .discard

theorem Step.of_bind {f : α → Program β} {q : Program β}
    (h : Step here fresh t (p >>= f) moves t' q) :
    (∃ a, p = .done a) ∨ ∃ p', Step here fresh t p moves t' p' ∧ q = p' >>= f := by
  cases p with
  | done a => exact .inl ⟨a, rfl⟩
  | workingDirectory next =>
    cases h with | workingDirectory hr => exact .inr ⟨_, .workingDirectory hr, rfl⟩
  | prompt text next => cases h with | prompt r => exact .inr ⟨_, .prompt r, rfl⟩
  | noteMismatch next => cases h; exact .inr ⟨_, .noteMismatch, rfl⟩
  | random count next => cases h with | random hr => exact .inr ⟨_, .random hr, rfl⟩
  | readBytes path next => cases h with | readBytes hr => exact .inr ⟨_, .readBytes hr, rfl⟩
  | makeDirectory path next =>
    cases h with
    | makeDirectory ht => exact .inr ⟨_, .makeDirectory ht, rfl⟩
    | makeDirectory_refused fault => exact .inr ⟨_, .makeDirectory_refused fault, rfl⟩
  | isDirectory path next => cases h with | isDirectory hr => exact .inr ⟨_, .isDirectory hr, rfl⟩
  | makeTemporary directory next =>
    cases h with
    | makeTemporary hd hname hfree => exact .inr ⟨_, .makeTemporary hd hname hfree, rfl⟩
    | makeTemporary_refused fault => exact .inr ⟨_, .makeTemporary_refused fault, rfl⟩
  | append file contents next =>
    cases h with
    | append => exact .inr ⟨_, .append, rfl⟩
    | append_refused hstored fault => exact .inr ⟨_, .append_refused hstored fault, rfl⟩
  | sync file next => cases h with | sync hr => exact .inr ⟨_, .sync hr, rfl⟩
  | move file path next =>
    cases h with
    | move ht => exact .inr ⟨_, .move ht, rfl⟩
    | move_refused fault => exact .inr ⟨_, .move_refused fault, rfl⟩
  | discard file next => cases h; exact .inr ⟨_, .discard, rfl⟩

/-- A program that has ended has ended at every step. -/
theorem Ends.of_bind {f : α → Program β} {b : β} (h : Ends here fresh t (p >>= f) t' b) :
    ∃ mid a, Ends here fresh t p mid a ∧ Ends here fresh mid (f a) t' b := by
  generalize hq : p >>= f = q at h
  induction h generalizing p with
  | done =>
    cases p with
    | done a =>
      rw [bind_done] at hq
      exact ⟨_, a, .done, hq ▸ .done⟩
    | _ => cases hq
  | turn hstep hrest ih =>
    subst hq
    obtain ⟨a, rfl⟩ | ⟨p', hstep', rfl⟩ := hstep.of_bind
    · exact ⟨_, a, .done, .turn hstep hrest⟩
    · obtain ⟨mid, a, hp, hf⟩ := ih rfl
      exact ⟨mid, a, .turn hstep' hp, hf⟩

/-- The same, with what the prompts on the way were answered. -/
inductive EndsAsking (here : Location) (fresh : String → Prop) :
    FileTree → Program α → List (IoResult String) → FileTree → α → Prop
  | done {t : FileTree} {a : α} : EndsAsking here fresh t (.done a) [] t a
  | prompt {t t' : FileTree} {text : String} {next : IoResult String → Program α} {r : IoResult String}
      {answers : List (IoResult String)} {a : α} (h : EndsAsking here fresh t (next r) answers t' a) :
      EndsAsking here fresh t (.prompt text next) (r :: answers) t' a
  | turn {t t' t'' : FileTree} {p p' : Program α} {moves : Bool} {answers : List (IoResult String)} {a : α}
      (hother : ∀ text next, p ≠ .prompt text next) (hstep : Step here fresh t p moves t' p')
      (h : EndsAsking here fresh t' p' answers t'' a) : EndsAsking here fresh t p answers t'' a

theorem EndsAsking.ends {answers : List (IoResult String)} {a : α}
    (h : EndsAsking here fresh t p answers t' a) : Ends here fresh t p t' a := by
  induction h with
  | done => exact .done
  | prompt _ ih => exact .turn (.prompt _) ih
  | turn _ hstep _ ih => exact .turn hstep ih

theorem EndsAsking.of_bind {f : α → Program β} {answers : List (IoResult String)} {b : β}
    (h : EndsAsking here fresh t (p >>= f) answers t' b) :
    ∃ mid a before after, answers = before ++ after ∧ EndsAsking here fresh t p before mid a ∧
      EndsAsking here fresh mid (f a) after t' b := by
  generalize hq : p >>= f = q at h
  induction h generalizing p with
  | done =>
    cases p with
    | done a =>
      rw [bind_done] at hq
      exact ⟨_, a, [], [], rfl, .done, hq ▸ .done⟩
    | _ => cases hq
  | prompt hrest ih =>
    cases p with
    | done a =>
      rw [bind_done] at hq
      exact ⟨_, a, [], _, rfl, .done, hq ▸ .prompt hrest⟩
    | prompt text next =>
      cases hq
      obtain ⟨mid, a, before, after, rfl, hp, hf⟩ := ih rfl
      exact ⟨mid, a, _ :: before, after, rfl, .prompt hp, hf⟩
    | _ => cases hq
  | turn hother hstep hrest ih =>
    subst hq
    obtain ⟨a, rfl⟩ | ⟨p', hstep', rfl⟩ := hstep.of_bind
    · exact ⟨_, a, [], _, rfl, .done, .turn hother hstep hrest⟩
    · obtain ⟨mid, a, before, after, rfl, hp, hf⟩ := ih rfl
      have hprompt : ∀ text next, p ≠ .prompt text next := by
        rintro text next rfl
        exact hother text _ rfl
      exact ⟨mid, a, before, after, rfl, .turn hprompt hstep' hp, hf⟩

/-- What so many prompts get if certain texts will be entered. -/
def replies : List String → Nat → List (IoResult String)
  | _, 0 => []
  | [], n + 1 => .error World.noAnswer :: replies [] n
  | a :: rest, n + 1 => .ok a :: replies rest n

/-- A program that is refused only what the tree refuses, and what is not there to enter, can end as `run`
says. -/
theorem endsAsking_run (hfresh : ∀ n, fresh (FileTree.temporaryName n)) (p : Program α) (w : World) :
    ∃ n, (p.run w).2.prompts.length = w.prompts.length + n ∧
      EndsAsking w.here fresh w.tree p (replies w.answers n) (p.run w).2.tree (p.run w).1 := by
  induction p generalizing w with
  | done a => exact ⟨0, rfl, .done⟩
  | workingDirectory next ih =>
    obtain ⟨n, hn, hrun⟩ := ih _ w
    exact ⟨n, hn, .turn nofun (.workingDirectory .given) hrun⟩
  | prompt text next ih =>
    cases ha : w.answers with
    | nil =>
      obtain ⟨n, hn, hrun⟩ := ih (.error World.noAnswer) { w with prompts := w.prompts ++ [text], answers := [] }
      simp only [run, ha]
      refine ⟨n + 1, hn.trans ?_, .prompt hrun⟩
      simp only [List.length_append, List.length_singleton, Nat.add_assoc, Nat.add_comm 1 n]
    | cons a rest =>
      obtain ⟨n, hn, hrun⟩ := ih (.ok a) { w with prompts := w.prompts ++ [text], answers := rest }
      simp only [run, ha]
      refine ⟨n + 1, hn.trans ?_, .prompt hrun⟩
      simp only [List.length_append, List.length_singleton, Nat.add_assoc, Nat.add_comm 1 n]
  | noteMismatch next ih =>
    obtain ⟨n, hn, hrun⟩ := ih () { w with mismatches := w.mismatches + 1 }
    exact ⟨n, hn, .turn nofun .noteMismatch hrun⟩
  | random count next ih =>
    obtain ⟨n, hn, hrun⟩ := ih _ { w with drawn := w.drawn + count }
    exact ⟨n, hn, .turn nofun (.random (w.length_of_draw count)) hrun⟩
  | readBytes path next ih =>
    obtain ⟨n, hn, hrun⟩ := ih _ w
    exact ⟨n, hn, .turn nofun (.readBytes .given) hrun⟩
  | makeDirectory path next ih =>
    cases hm : w.tree.makeDirectory w.here path with
    | ok t =>
      obtain ⟨n, hn, hrun⟩ := ih (.ok ()) { w with tree := t }
      simp only [run, hm, World.change]
      exact ⟨n, hn, .turn nofun (.makeDirectory hm) hrun⟩
    | error kind =>
      obtain ⟨n, hn, hrun⟩ := ih (.error kind.fault) w
      simp only [run, hm, World.change]
      exact ⟨n, hn, .turn nofun (.makeDirectory_refused _) hrun⟩
  | isDirectory path next ih =>
    obtain ⟨n, hn, hrun⟩ := ih _ w
    exact ⟨n, hn, .turn nofun (.isDirectory id) hrun⟩
  | makeTemporary directory next ih =>
    cases hm : w.tree.makeTemporary w.here directory with
    | ok made =>
      obtain ⟨l, t⟩ := made
      obtain ⟨d, i, hd, rfl, hfree, rfl⟩ := FileTree.makeTemporary_eq_ok hm
      obtain ⟨n, hn, hrun⟩ := ih (.ok ⟨FileTree.temporaryName i :: d⟩)
        { w with tree := w.tree.insert (FileTree.temporaryName i :: d) (.file []) }
      simp only [run, hm]
      exact ⟨n, hn, .turn nofun (.makeTemporary hd (hfresh i) hfree) hrun⟩
    | error kind =>
      obtain ⟨n, hn, hrun⟩ := ih (.error kind.fault) w
      simp only [run, hm]
      exact ⟨n, hn, .turn nofun (.makeTemporary_refused _) hrun⟩
  | append file contents next ih =>
    obtain ⟨n, hn, hrun⟩ := ih (.ok ()) { w with tree := w.tree.append file.location contents }
    exact ⟨n, hn, .turn nofun .append hrun⟩
  | sync file next ih =>
    obtain ⟨n, hn, hrun⟩ := ih _ w
    exact ⟨n, hn, .turn nofun (.sync .given) hrun⟩
  | move file path next ih =>
    cases hm : w.tree.move w.here file.location path with
    | ok t =>
      obtain ⟨n, hn, hrun⟩ := ih (.ok ()) { w with tree := t }
      simp only [run, hm, World.change]
      exact ⟨n, hn, .turn nofun (.move hm) hrun⟩
    | error kind =>
      obtain ⟨n, hn, hrun⟩ := ih (.error kind.fault) w
      simp only [run, hm, World.change]
      exact ⟨n, hn, .turn nofun (.move_refused _) hrun⟩
  | discard file next ih =>
    obtain ⟨n, hn, hrun⟩ := ih () { w with tree := w.tree.erase file.location }
    exact ⟨n, hn, .turn nofun .discard hrun⟩

theorem ends_run (hfresh : ∀ n, fresh (FileTree.temporaryName n)) (p : Program α) (w : World) :
    Ends w.here fresh w.tree p (p.run w).2.tree (p.run w).1 := by
  obtain ⟨n, -, h⟩ := endsAsking_run hfresh p w
  exact h.ends

end Program

/-- Programs that share a file tree, each under an index. -/
structure Crowd (ι α : Type) where
  tree : FileTree
  /-- What is left of each program. -/
  programs : ι → Program α
  /-- Whose temporary files have been moved to their paths, the last one first. -/
  moved : List ι

namespace Crowd

variable {ι α : Type} [DecidableEq ι] {here : Location} {fresh : String → Prop} {s s' : Crowd ι α}

inductive Step (here : Location) (fresh : String → Prop) : Crowd ι α → Crowd ι α → Prop
  | turn {s : Crowd ι α} (i : ι) {moves : Bool} {t : FileTree} {p : Program α}
      (h : Program.Step here fresh s.tree (s.programs i) moves t p) :
      Step here fresh s
        ⟨t, Function.update s.programs i p, if moves then i :: s.moved else s.moved⟩

/-- Any number of turns, in any order. -/
abbrev Reaches (here : Location) (fresh : String → Prop) : Crowd ι α → Crowd ι α → Prop :=
  Relation.ReflTransGen (Step here fresh)

theorem reaches_turn (h : Reaches here fresh s s') (i : ι) {moves : Bool} {t : FileTree}
    {p : Program α} (hstep : Program.Step here fresh s'.tree (s'.programs i) moves t p) :
    Reaches here fresh s
      ⟨t, Function.update s'.programs i p, if moves then i :: s'.moved else s'.moved⟩ :=
  h.tail (.turn i hstep)

/-- Whether every program has ended. -/
def Finished (s : Crowd ι α) : Prop := ∀ i, ∃ a, s.programs i = .done a

theorem reaches_ends {β : Type} {p : Program β} {f : β → Program α} {t t' : FileTree} {b : β} (i : ι)
    (h : Program.Ends here fresh t p t' b) (htree : s.tree = t) (hp : s.programs i = p >>= f) :
    ∃ moved, Reaches here fresh s ⟨t', Function.update s.programs i (f b), moved⟩ := by
  induction h generalizing s with
  | @done t b =>
    have hsame : Function.update s.programs i (f b) = s.programs := by
      rw [← Program.bind_done b f, ← hp, Function.update_eq_self]
    rw [hsame, ← htree]
    exact ⟨s.moved, .refl⟩
  | turn hstep _ ih =>
    have hturn := hstep.bind f
    rw [← htree, ← hp] at hturn
    obtain ⟨moved, hrest⟩ := ih (s := ⟨_, Function.update s.programs i _, _⟩) rfl
      (Function.update_self ..)
    rw [Function.update_idem] at hrest
    exact ⟨moved, .head (.turn i hturn) hrest⟩

/-- A crowd that has come so far comes further when one program takes some turns at once. -/
theorem reaches_then {β : Type} {p : Program β} {f : β → Program α} {t t' : FileTree} {b : β}
    (h : Reaches here fresh s s') (i : ι) (hends : Program.Ends here fresh t p t' b) (htree : s'.tree = t)
    (hp : s'.programs i = p >>= f) :
    ∃ s'' : Crowd ι α, Reaches here fresh s s'' ∧ s''.tree = t' ∧ s''.programs i = f b ∧
      ∀ j, j ≠ i → s''.programs j = s'.programs j := by
  obtain ⟨moved, hmore⟩ := reaches_ends i hends htree hp
  exact ⟨_, h.trans hmore, rfl, Function.update_self .., fun j hj => Function.update_of_ne hj _ _⟩

end Crowd

end KeyCustody
