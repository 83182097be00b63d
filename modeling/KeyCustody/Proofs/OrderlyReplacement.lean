import KeyCustody.Proofs.Interleaving
import KeyCustody.Proofs.Replacement
/-! # Orderly replacement

A replacement keeps an order whatever the host answers and whatever others do to the tree: it has one
temporary file at a time, appends to no other file, moves it to the path only when it has all of the
contents, and discards it otherwise. A turn of an orderly program makes directories, or changes its own
temporary file, or moves it. -/

namespace KeyCustody

/-- What comes of a filling if nothing goes wrong: nothing at all if it has a fault. -/
def Filling.complete? (filling : Filling) : Option Bytes :=
  if filling.fault.isSome then none else some filling.pieces.flatten

theorem Filling.fault_of_complete? {filling : Filling} {contents : Bytes}
    (h : filling.complete? = some contents) : filling.fault = none := by
  rw [complete?] at h
  split_ifs at h with hfault
  simpa using hfault

/-- How far a replacement has come. -/
inductive Phase where
  /-- There is no temporary file, because none has been made yet or because it has been discarded. -/
  | idle
  | holding (file : Temporary) (contents : Bytes)
  | moved

/-- Programs that put `complete?` at `path` in good order from a phase on, whatever the host answers. How
they end, `after` says. -/
inductive Orderly {α : Type} (path : Path) (complete? : Option Bytes) (after : α → Phase → Prop) :
    Phase → Program α → Prop
  | done {a : α} {phase : Phase} (h : after a phase) : Orderly path complete? after phase (.done a)
  | makeDirectory {p : Path} {next : IoResult Unit → Program α} {phase : Phase}
      (h : ∀ r, Orderly path complete? after phase (next r)) :
      Orderly path complete? after phase (.makeDirectory p next)
  | isDirectory {p : Path} {next : Bool → Program α} {phase : Phase}
      (h : ∀ r, Orderly path complete? after phase (next r)) :
      Orderly path complete? after phase (.isDirectory p next)
  | makeTemporary {directory : Path} {next : IoResult Temporary → Program α}
      (hok : ∀ file, Orderly path complete? after (.holding file []) (next (.ok file)))
      (hfault : ∀ fault, Orderly path complete? after .idle (next (.error fault))) :
      Orderly path complete? after .idle (.makeTemporary directory next)
  | append {file : Temporary} {contents more : Bytes} {next : IoResult Unit → Program α}
      (hok : Orderly path complete? after (.holding file (contents ++ more)) (next (.ok ())))
      (hfault : ∀ stored fault,
        Orderly path complete? after (.holding file (contents ++ stored)) (next (.error fault))) :
      Orderly path complete? after (.holding file contents) (.append file more next)
  | sync {file : Temporary} {contents : Bytes} {next : IoResult Unit → Program α}
      (h : ∀ r, Orderly path complete? after (.holding file contents) (next r)) :
      Orderly path complete? after (.holding file contents) (.sync file next)
  | move {file : Temporary} {contents : Bytes} {next : IoResult Unit → Program α}
      (hcomplete : complete? = some contents)
      (hok : Orderly path complete? after .moved (next (.ok ())))
      (hfault : ∀ fault,
        Orderly path complete? after (.holding file contents) (next (.error fault))) :
      Orderly path complete? after (.holding file contents) (.move file path next)
  | discard {file : Temporary} {contents : Bytes} {next : Unit → Program α}
      (h : Orderly path complete? after .idle (next ())) :
      Orderly path complete? after (.holding file contents) (.discard file next)

namespace Orderly

variable {α β : Type} {path : Path} {complete? : Option Bytes} {after : α → Phase → Prop}
  {after' : β → Phase → Prop} {phase : Phase} {p : Program α}

theorem ended {a : α} (h : Orderly path complete? after phase (.done a)) : after a phase := by
  cases h
  assumption

theorem bind {f : α → Program β} (h : Orderly path complete? after phase p)
    (hf : ∀ a phase', after a phase' → Orderly path complete? after' phase' (f a)) :
    Orderly path complete? after' phase (p >>= f) := by
  change Orderly path complete? after' phase (p.bind f)
  induction h with
  | done h => exact hf _ _ h
  | makeDirectory _ ih => exact .makeDirectory ih
  | isDirectory _ ih => exact .isDirectory ih
  | makeTemporary _ _ ihok ihfault => exact .makeTemporary ihok ihfault
  | append _ _ ihok ihfault => exact .append ihok ihfault
  | sync _ ih => exact .sync ih
  | move hcomplete _ _ ihok ihfault => exact .move hcomplete ihok ihfault
  | discard _ ih => exact .discard ih

end Orderly

/-! ## Turns -/

/-- What a turn does to the tree and to the phase of the program that takes it. -/
inductive Change (here : Location) (fresh : String → Prop) (path : Path) (complete? : Option Bytes)
    (t : FileTree) : Phase → Bool → FileTree → Phase → Prop
  | grow {phase : Phase} {t' : FileTree} (h : t.Grown t') :
      Change here fresh path complete? t phase false t' phase
  | make {name : String} {d : Location} {t' : FileTree} (hname : fresh name)
      (hfree : t.lookup (name :: d) = none)
      (h : ∀ l, t'.lookup l = if l = name :: d then some (.file []) else t.lookup l) :
      Change here fresh path complete? t .idle false t' (.holding ⟨name :: d⟩ [])
  | store {file : Temporary} {contents contents' : Bytes} {t' : FileTree}
      (h : ∀ l, t'.lookup l = if l = file.location then some (.file contents') else t.lookup l) :
      Change here fresh path complete? t (.holding file contents) false t' (.holding file contents')
  | discard {file : Temporary} {contents : Bytes} {t' : FileTree}
      (h : ∀ l, t'.lookup l = if l = file.location then none else t.lookup l) :
      Change here fresh path complete? t (.holding file contents) false t' .idle
  | move {file : Temporary} {contents : Bytes} {g : FileTree.Target} {t' : FileTree}
      (hcomplete : complete? = some contents)
      (hput : (t.erase file.location).Put here path contents g t') :
      Change here fresh path complete? t (.holding file contents) true t' .moved

/-- The temporary file in hand is in the tree, below the root. -/
def Phase.StoredIn (phase : Phase) (t : FileTree) : Prop :=
  ∀ file contents, phase = .holding file contents →
    file.location ≠ [] ∧ t.lookup file.location = some (.file contents)

theorem Change.append {here : Location} {fresh : String → Prop} {path : Path}
    {complete? : Option Bytes} {t : FileTree} {file : Temporary} {contents : Bytes}
    (hstored : (Phase.holding file contents).StoredIn t) (more : Bytes) :
    Change here fresh path complete? t (.holding file contents) false (t.append file.location more)
      (.holding file (contents ++ more)) := by
  obtain ⟨hbelow, hfile⟩ := hstored file contents rfl
  refine .store fun l => ?_
  rw [FileTree.append, hfile, FileTree.lookup_insert _ hbelow]

/-- A turn of an orderly program that finds its temporary file as it left it. -/
theorem Orderly.turn {α : Type} {here : Location} {fresh : String → Prop} {path : Path}
    {complete? : Option Bytes} {after : α → Phase → Prop} {phase : Phase} {p p' : Program α}
    {t t' : FileTree} {moves : Bool} (h : Orderly path complete? after phase p)
    (hstored : phase.StoredIn t) (hstep : Program.Step here fresh t p moves t' p') :
    ∃ phase', Orderly path complete? after phase' p' ∧
      Change here fresh path complete? t phase moves t' phase' := by
  cases h with
  | done h => cases hstep
  | makeDirectory h =>
    cases hstep with
    | makeDirectory ht => exact ⟨_, h _, .grow (FileTree.makeDirectory_grown ht)⟩
    | makeDirectory_refused fault => exact ⟨_, h _, .grow (.refl t)⟩
  | isDirectory h =>
    cases hstep
    exact ⟨_, h _, .grow (.refl t)⟩
  | makeTemporary hok hfault =>
    cases hstep with
    | makeTemporary hd hname hfree =>
      exact ⟨_, hok _, .make hname hfree (FileTree.lookup_insert t (List.cons_ne_nil _ _) _)⟩
    | makeTemporary_refused fault => exact ⟨_, hfault fault, .grow (.refl t)⟩
  | append hok hfault =>
    cases hstep with
    | append => exact ⟨_, hok, .append hstored _⟩
    | append_refused _ fault => exact ⟨_, hfault _ fault, .append hstored _⟩
  | sync h =>
    cases hstep
    exact ⟨_, h _, .grow (.refl t)⟩
  | @move file contents _ hcomplete hok hfault =>
    cases hstep with
    | move ht =>
      obtain ⟨hbelow, hfile⟩ := hstored file contents rfl
      obtain ⟨g, hput⟩ := (Atomic.Staged.of_lookup hbelow hfile).move ht
      exact ⟨_, hok, .move hcomplete hput⟩
    | move_refused fault => exact ⟨_, hfault fault, .grow (.refl t)⟩
  | @discard file contents _ h =>
    cases hstep
    exact ⟨_, h, .discard (FileTree.lookup_erase t (hstored file contents rfl).1)⟩

namespace Atomic

variable {path : Path} {complete? : Option Bytes} {filling : Filling}

/-! ## The parts of a replacement -/

/-- How a part that makes directories ends. -/
def untouched {α : Type} (phase : Phase) (_ : α) (phase' : Phase) : Prop := phase' = phase

theorem orderly_ensureDirectory (p : Path) (phase : Phase) :
    Orderly path complete? (untouched phase) phase (ensureDirectory p) := by
  refine .makeDirectory fun r => ?_
  cases r with
  | ok u => exact .done rfl
  | error fault =>
    change Orderly path complete? (untouched phase) phase (if _ then _ else _)
    split_ifs
    · refine .isDirectory fun r => ?_
      cases r <;> exact .done rfl
    · exact .done rfl

theorem orderly_climb (ps : List Path) (phase : Phase) :
    Orderly path complete? (untouched phase) phase (climb ps) := by
  induction ps with
  | nil => exact .done rfl
  | cons p ps ih =>
    rw [climb]
    split_ifs
    · exact .done rfl
    · refine (orderly_ensureDirectory p phase).bind ?_
      rintro (fault | u) phase' ⟨⟩
      · change Orderly path complete? (untouched phase) phase (if _ then _ else _)
        split_ifs
        · refine ih.bind ?_
          rintro (fault | missing) phase' ⟨⟩ <;> exact .done rfl
        · exact .done rfl
      · exact .done rfl

theorem orderly_ensureDirectories (ps : List Path) (phase : Phase) :
    Orderly path complete? (untouched phase) phase (ensureDirectories ps) := by
  induction ps with
  | nil => exact .done rfl
  | cons p ps ih =>
    refine (orderly_ensureDirectory p phase).bind ?_
    rintro (fault | u) phase' ⟨⟩
    · exact .done rfl
    · exact ih

theorem orderly_ensurePath (p : Path) (phase : Phase) :
    Orderly path complete? (untouched phase) phase (ensurePath p) := by
  refine (orderly_climb p.ancestors phase).bind ?_
  rintro (fault | missing) phase' ⟨⟩
  · exact .done rfl
  · exact orderly_ensureDirectories missing phase

/-- Appending ends with all of the pieces in the file, or with a fault. -/
theorem orderly_appendAll (file : Temporary) (contents : Bytes) (pieces : List Bytes) :
    Orderly path complete? (fun r phase => ∃ stored, phase = .holding file stored ∧
        (r = .ok () → stored = contents ++ pieces.flatten))
      (.holding file contents) (appendAll file pieces) := by
  induction pieces generalizing contents with
  | nil => exact .done ⟨contents, rfl, fun _ => by simp⟩
  | cons piece pieces ih =>
    refine .append ?_ fun stored fault => .done ⟨_, rfl, by rintro ⟨⟩⟩
    have hrest := ih (contents ++ piece)
    simp only [List.append_assoc] at hrest
    exact hrest

/-- How a replacement ends: it has moved its file if and only if it succeeds, and it holds none. -/
def settled {ε : Type} (r : Except ε Unit) (phase : Phase) : Prop :=
  (r = .ok () ∧ phase = .moved) ∨ ((∃ e, r = .error e) ∧ phase = .idle)

/-- Filling ends with the file moved, or with a fault and the file still there. -/
theorem orderly_fillAndMove (file : Temporary) :
    Orderly path filling.complete? (fun r phase => (r = .ok () ∧ phase = .moved) ∨
        ((∃ fault, r = .error fault) ∧ ∃ stored, phase = .holding file stored))
      (.holding file []) (fillAndMove file path filling) := by
  refine (orderly_appendAll file [] filling.pieces).bind ?_
  rintro (fault | u) phase ⟨stored, rfl, hstored⟩
  · exact .done (.inr ⟨⟨fault, rfl⟩, stored, rfl⟩)
  · cases hfault : filling.fault with
    | some fault => exact .done (.inr ⟨⟨fault, rfl⟩, stored, rfl⟩)
    | none =>
      refine .sync fun r => ?_
      cases r with
      | error fault => exact .done (.inr ⟨⟨fault, rfl⟩, stored, rfl⟩)
      | ok u =>
        have hcomplete : filling.complete? = some stored := by
          rw [hstored rfl, Filling.complete?, hfault]
          rfl
        exact .move hcomplete (.done (.inl ⟨rfl, rfl⟩))
          fun fault => .done (.inr ⟨⟨fault, rfl⟩, stored, rfl⟩)

theorem orderly_replaceIn (directory : Path) :
    Orderly path filling.complete? settled .idle (replaceIn directory path filling) := by
  refine .makeTemporary (fun file => ?_) fun fault => .done (.inr ⟨⟨fault, rfl⟩, rfl⟩)
  refine (orderly_fillAndMove file).bind ?_
  rintro r phase (⟨rfl, rfl⟩ | ⟨⟨fault, rfl⟩, stored, rfl⟩)
  · exact .done (.inl ⟨rfl, rfl⟩)
  · exact .discard (.done (.inr ⟨⟨fault, rfl⟩, rfl⟩))

/-- A replacement in a directory that is made first, if one is named. -/
def replaceInside (path : Path) (filling : Filling) : Option Path → Program (IoResult Unit)
  | none => replaceIn ⟨"."⟩ path filling
  | some directory => do
    match ← ensurePath directory with
    | .ok () => replaceIn directory path filling
    | .error fault => return .error fault

theorem orderly_replaceInside (directory? : Option Path) :
    Orderly path filling.complete? settled .idle (replaceInside path filling directory?) := by
  cases directory? with
  | none => exact orderly_replaceIn _
  | some directory =>
    refine (orderly_ensurePath directory .idle).bind ?_
    rintro (fault | u) phase ⟨⟩
    · exact .done (.inr ⟨⟨fault, rfl⟩, rfl⟩)
    · exact orderly_replaceIn directory

theorem orderly_replaceWith (path : Path) (filling : Filling) :
    Orderly path filling.complete? settled .idle (replaceWith path filling).run := by
  have hcall : Orderly path filling.complete? settled .idle
      (replaceInside path filling (directoryOf? path)) := orderly_replaceInside _
  refine hcall.bind ?_
  rintro r phase (⟨rfl, rfl⟩ | ⟨⟨fault, rfl⟩, rfl⟩)
  · exact .done (.inl ⟨rfl, rfl⟩)
  · exact .done (.inr ⟨⟨_, rfl⟩, rfl⟩)

/-- In the current directory there are no directories to be made. -/
theorem replaceWith_run_here {path : Path} (h : Atomic.directoryOf? path = none) (filling : Filling) :
    (Atomic.replaceWith path filling).run = Atomic.replaceIn ⟨"."⟩ path filling >>= fun r =>
      .done (r.mapError Action.failureOf) := by
  unfold Atomic.replaceWith
  rw [h]
  rfl

end Atomic

end KeyCustody
