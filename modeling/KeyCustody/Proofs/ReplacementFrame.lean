import KeyCustody.Proofs.Interleaving
import KeyCustody.Proofs.OrderlyReplacement
/-! # The frame of a replacement

A replacement that runs alone may be refused at any call. Whatever it comes to, it has put the complete
contents at its path or changed no file, and it has made no directory that does not lie above its path. -/

namespace KeyCustody

namespace FileTree

variable {t t' t'' : FileTree} {here l : Location} {p : Path} {S S' : Path → Prop}

/-- A path names the entry at a place. -/
def Names (t : FileTree) (here : Location) (p : Path) (l : Location) : Prop :=
  ∃ g, t.target here p = .ok g ∧ g.isName = true ∧ g.location = l

theorem Names.kept (h : t.Names here p l)
    (hdir : ∀ l, t.lookup l = some .directory → t'.lookup l = some .directory) : t'.Names here p l := by
  obtain ⟨g, hg, hname, hl⟩ := h
  exact ⟨g, target_kept hdir hg, hname, hl⟩

theorem Put.names {contents : Bytes} {g : Target} (h : Put t here p contents g t') :
    t'.Names here p g.location :=
  ⟨g, target_kept h.directory_kept h.target, h.isName, rfl⟩

/-- A later tree with new directories that are named by certain paths. -/
structure GrownBy (here : Location) (S : Path → Prop) (t t' : FileTree) : Prop where
  grown : t.Grown t'
  named : ∀ l, t.lookup l = none → t'.lookup l = some .directory → ∃ p, S p ∧ t'.Names here p l

namespace GrownBy

theorem of_lookup (h : t'.lookup = t.lookup) : GrownBy here S t t' where
  grown := .of_lookup h
  named l hl hl' := by
    rw [h, hl] at hl'
    cases hl'

theorem refl (t : FileTree) : GrownBy here S t t := of_lookup rfl

theorem mono (h : GrownBy here S t t') (hS : ∀ p, S p → S' p) : GrownBy here S' t t' where
  grown := h.grown
  named l hl hl' := by
    obtain ⟨p, hp, hnames⟩ := h.named l hl hl'
    exact ⟨p, hS p hp, hnames⟩

theorem trans (h : GrownBy here S t t') (h' : GrownBy here S t' t'') : GrownBy here S t t'' where
  grown := h.grown.trans h'.grown
  named l hl hl' := by
    obtain hnone | hsome := h.grown.new l hl
    · exact h'.named l hnone hl'
    · obtain ⟨p, hp, hnames⟩ := h.named l hl hsome
      exact ⟨p, hp, hnames.kept fun l hl => h'.grown.kept l _ hl⟩

end GrownBy

theorem makeDirectory_grownBy (h : t.makeDirectory here p = .ok t') : GrownBy here (· = p) t t' where
  grown := makeDirectory_grown h
  named l hl hl' := by
    have hkept := (makeDirectory_grown h).kept
    unfold makeDirectory at h
    cases hg : t.target here p with
    | error kind => rw [hg] at h; cases h
    | ok g =>
      rw [hg] at h
      simp only [bind, Except.bind] at h
      split_ifs at h with hname hlong
      cases hfree : t.lookup (g.last :: g.directory) with
      | some e => rw [hfree] at h; cases h
      | none =>
        rw [hfree] at h
        cases h
        rw [lookup_insert t (List.cons_ne_nil _ _)] at hl'
        split_ifs at hl' with heq
        · exact ⟨p, rfl, g, target_kept (fun l hl => hkept l _ hl) hg, by simpa using hname, heq.symm⟩
        · rw [hl] at hl'
          cases hl'

end FileTree

namespace Program

/-! ## Calls -/

variable {here : Location} {fresh : String → Prop} {t t' : FileTree} {p : Path} {file : Temporary}
  {r : IoResult Unit}

theorem ends_done {α : Type} {a b : α} (h : Ends here fresh t (.done a) t' b) : b = a ∧ t' = t := by
  cases h with
  | done => exact ⟨rfl, rfl⟩
  | turn hstep => cases hstep

theorem ends_makeDirectory (h : Ends here fresh t (makeDirectory p .done) t' r) :
    (r = .ok () ∧ t.makeDirectory here p = .ok t') ∨ ((∃ fault, r = .error fault) ∧ t' = t) := by
  obtain _ | ⟨hstep, hend⟩ := h
  cases hstep with
  | makeDirectory ht =>
    obtain ⟨rfl, rfl⟩ := ends_done hend
    exact .inl ⟨rfl, ht⟩
  | makeDirectory_refused fault =>
    obtain ⟨rfl, rfl⟩ := ends_done hend
    exact .inr ⟨⟨fault, rfl⟩, rfl⟩

theorem ends_isDirectory {b : Bool} (h : Ends here fresh t (isDirectory p .done) t' b) : t' = t := by
  obtain _ | ⟨hstep, hend⟩ := h
  cases hstep
  exact (ends_done hend).2

theorem ends_makeTemporary {r : IoResult Temporary}
    (h : Ends here fresh t (makeTemporary p .done) t' r) :
    (∃ l, r = .ok ⟨l⟩ ∧ Atomic.Staged t l [] t') ∨ ((∃ fault, r = .error fault) ∧ t' = t) := by
  obtain _ | ⟨hstep, hend⟩ := h
  cases hstep with
  | makeTemporary hd hname hfree =>
    obtain ⟨rfl, rfl⟩ := ends_done hend
    exact .inl ⟨_, rfl, List.cons_ne_nil _ _, hfree, FileTree.lookup_insert t (List.cons_ne_nil _ _) _⟩
  | makeTemporary_refused fault =>
    obtain ⟨rfl, rfl⟩ := ends_done hend
    exact .inr ⟨⟨fault, rfl⟩, rfl⟩

theorem ends_append {contents : Bytes} (h : Ends here fresh t (append file contents .done) t' r) :
    ∃ stored, t' = t.append file.location stored ∧ (r = .ok () → stored = contents) := by
  obtain _ | ⟨hstep, hend⟩ := h
  cases hstep with
  | append =>
    obtain ⟨rfl, rfl⟩ := ends_done hend
    exact ⟨contents, rfl, fun _ => rfl⟩
  | append_refused hstored fault =>
    obtain ⟨rfl, rfl⟩ := ends_done hend
    exact ⟨_, rfl, by rintro ⟨⟩⟩

theorem ends_sync (h : Ends here fresh t (sync file .done) t' r) : t' = t := by
  obtain _ | ⟨hstep, hend⟩ := h
  cases hstep
  exact (ends_done hend).2

theorem ends_move (h : Ends here fresh t (move file p .done) t' r) :
    (r = .ok () ∧ t.move here file.location p = .ok t') ∨ ((∃ fault, r = .error fault) ∧ t' = t) := by
  obtain _ | ⟨hstep, hend⟩ := h
  cases hstep with
  | move ht =>
    obtain ⟨rfl, rfl⟩ := ends_done hend
    exact .inl ⟨rfl, ht⟩
  | move_refused fault =>
    obtain ⟨rfl, rfl⟩ := ends_done hend
    exact .inr ⟨⟨fault, rfl⟩, rfl⟩

theorem ends_discard {u : Unit} (h : Ends here fresh t (discard file fun _ => .done ()) t' u) :
    t' = t.erase file.location := by
  obtain _ | ⟨hstep, hend⟩ := h
  cases hstep
  exact (ends_done hend).2

end Program

namespace Atomic

open FileTree Program

variable {here l : Location} {fresh : String → Prop} {b t t' : FileTree} {p path directory : Path}
  {filling : Filling} {r : IoResult Unit}

/-! ## Missing directories -/

theorem ends_ensureDirectory (h : Ends here fresh t (ensureDirectory p) t' r) :
    GrownBy here (· = p) t t' := by
  obtain ⟨mid, made, hmake, hrest⟩ := h.of_bind
  obtain ⟨rfl, hmade⟩ | ⟨⟨fault, rfl⟩, rfl⟩ := ends_makeDirectory hmake
  · obtain ⟨-, rfl⟩ := ends_done hrest
    exact makeDirectory_grownBy hmade
  · change Ends here fresh mid (if _ then _ else _) t' r at hrest
    split_ifs at hrest
    · obtain ⟨mid', isThere, hcheck, hrest⟩ := hrest.of_bind
      obtain rfl := ends_isDirectory hcheck
      cases isThere <;> obtain ⟨-, rfl⟩ := ends_done hrest <;> exact .refl _
    · obtain ⟨-, rfl⟩ := ends_done hrest
      exact .refl _

theorem ends_ensureDirectories {ps : List Path} (h : Ends here fresh t (ensureDirectories ps) t' r) :
    GrownBy here (· ∈ ps) t t' := by
  induction ps generalizing t with
  | nil =>
    obtain ⟨-, rfl⟩ := ends_done h
    exact .refl _
  | cons p ps ih =>
    obtain ⟨mid, ensured, hfirst, hrest⟩ := h.of_bind
    have hp : GrownBy here (· ∈ p :: ps) t mid :=
      (ends_ensureDirectory hfirst).mono fun q hq => by simp [hq]
    cases ensured with
    | ok u => exact hp.trans ((ih hrest).mono fun q hq => List.mem_cons_of_mem p hq)
    | error fault =>
      obtain ⟨-, rfl⟩ := ends_done hrest
      exact hp

/-- Climbing makes directories of the list, and the ones that are still missing are of the list too. -/
theorem ends_climb {ps : List Path} {r : IoResult (List Path)} (h : Ends here fresh t (climb ps) t' r) :
    GrownBy here (· ∈ ps) t t' ∧ ∀ missing, r = .ok missing → ∀ p ∈ missing, p ∈ ps := by
  induction ps generalizing t t' r with
  | nil =>
    obtain ⟨rfl, rfl⟩ := ends_done h
    exact ⟨.refl _, by rintro _ ⟨⟩ p ⟨⟩⟩
  | cons p ps ih =>
    rw [climb] at h
    split_ifs at h
    · obtain ⟨rfl, rfl⟩ := ends_done h
      exact ⟨.refl _, by rintro _ ⟨⟩ p ⟨⟩⟩
    obtain ⟨mid, ensured, hfirst, hrest⟩ := h.of_bind
    have hp : GrownBy here (· ∈ p :: ps) t mid :=
      (ends_ensureDirectory hfirst).mono fun q hq => by simp [hq]
    cases ensured with
    | ok u =>
      obtain ⟨rfl, rfl⟩ := ends_done hrest
      exact ⟨hp, by rintro _ ⟨⟩ p ⟨⟩⟩
    | error fault =>
      change Ends here fresh mid (if _ then _ else _) t' r at hrest
      split_ifs at hrest
      · obtain ⟨mid', climbed, hclimb, hrest⟩ := hrest.of_bind
        obtain ⟨hgrown, hmissing⟩ := ih hclimb
        have hboth := hp.trans (hgrown.mono fun q hq => List.mem_cons_of_mem p hq)
        cases climbed with
        | ok missing =>
          obtain ⟨rfl, rfl⟩ := ends_done hrest
          refine ⟨hboth, ?_⟩
          rintro _ ⟨⟩ q hq
          rw [List.mem_append, List.mem_singleton] at hq
          obtain hq | rfl := hq
          · exact List.mem_cons_of_mem p (hmissing missing rfl q hq)
          · exact List.mem_cons_self
        | error fault' =>
          obtain ⟨rfl, rfl⟩ := ends_done hrest
          exact ⟨hboth, by rintro _ ⟨⟩⟩
      · obtain ⟨rfl, rfl⟩ := ends_done hrest
        exact ⟨hp, by rintro _ ⟨⟩⟩

theorem ends_ensurePath (h : Ends here fresh t (ensurePath p) t' r) :
    GrownBy here (· ∈ p.ancestors) t t' := by
  obtain ⟨mid, climbed, hclimb, hrest⟩ := h.of_bind
  obtain ⟨hgrown, hmissing⟩ := ends_climb hclimb
  cases climbed with
  | ok missing => exact hgrown.trans ((ends_ensureDirectories hrest).mono (hmissing missing rfl))
  | error fault =>
    obtain ⟨-, rfl⟩ := ends_done hrest
    exact hgrown

/-! ## The temporary file -/

theorem ends_appendAll {contents : Bytes} {pieces : List Bytes} (hs : Staged b l contents t)
    (h : Ends here fresh t (appendAll ⟨l⟩ pieces) t' r) :
    ∃ contents', Staged b l contents' t' ∧ (r = .ok () → contents' = contents ++ pieces.flatten) := by
  induction pieces generalizing t contents with
  | nil =>
    obtain ⟨-, rfl⟩ := ends_done h
    exact ⟨contents, hs, by simp⟩
  | cons piece pieces ih =>
    obtain ⟨mid, appended, hfirst, hrest⟩ := h.of_bind
    obtain ⟨stored, rfl, hstored⟩ := ends_append hfirst
    cases appended with
    | ok u =>
      obtain rfl := hstored rfl
      obtain ⟨contents', hs', hall⟩ := ih (hs.append stored) hrest
      exact ⟨contents', hs', by simpa using hall⟩
    | error fault =>
      obtain ⟨rfl, rfl⟩ := ends_done hrest
      exact ⟨contents ++ stored, hs.append stored, by rintro ⟨⟩⟩

/-- The file is moved with all of its contents, or it is still there after a fault. -/
theorem ends_fillAndMove (hs : Staged b l [] t)
    (h : Ends here fresh t (fillAndMove ⟨l⟩ path filling) t' r) :
    (r = .ok () ∧ ∃ g, b.Put here path filling.pieces.flatten g t') ∨
      (∃ fault, r = .error fault) ∧ ∃ contents, Staged b l contents t' := by
  obtain ⟨mid, filled, hfill, hrest⟩ := h.of_bind
  obtain ⟨contents, hs', hcontents⟩ := ends_appendAll hs hfill
  cases filled with
  | error fault =>
    obtain ⟨rfl, rfl⟩ := ends_done hrest
    exact .inr ⟨⟨fault, rfl⟩, contents, hs'⟩
  | ok u =>
    obtain rfl := hcontents rfl
    cases hfault : filling.fault with
    | some fault =>
      simp only [hfault] at hrest
      obtain ⟨rfl, rfl⟩ := ends_done hrest
      exact .inr ⟨⟨fault, rfl⟩, _, hs'⟩
    | none =>
      simp only [hfault] at hrest
      obtain ⟨mid', synced, hsync, hrest⟩ := hrest.of_bind
      obtain rfl := ends_sync hsync
      cases synced with
      | error fault =>
        obtain ⟨rfl, rfl⟩ := ends_done hrest
        exact .inr ⟨⟨fault, rfl⟩, _, hs'⟩
      | ok u =>
        obtain ⟨rfl, hmove⟩ | ⟨⟨fault, rfl⟩, rfl⟩ := ends_move hrest
        · exact .inl ⟨rfl, hs'.move hmove⟩
        · exact .inr ⟨⟨fault, rfl⟩, _, hs'⟩

theorem ends_replaceIn (h : Ends here fresh t (replaceIn directory path filling) t' r) :
    (r = .ok () ∧ ∃ g, t.Put here path filling.pieces.flatten g t') ∨
      (∃ fault, r = .error fault) ∧ t'.lookup = t.lookup := by
  obtain ⟨mid, made, hmake, hrest⟩ := h.of_bind
  obtain ⟨l, rfl, hs⟩ | ⟨⟨fault, rfl⟩, rfl⟩ := ends_makeTemporary hmake
  · obtain ⟨mid', filled, hfill, hrest⟩ := hrest.of_bind
    obtain ⟨rfl, hput⟩ | ⟨⟨fault, rfl⟩, contents, hs'⟩ := ends_fillAndMove hs hfill
    · obtain ⟨rfl, rfl⟩ := ends_done hrest
      exact .inl ⟨rfl, hput⟩
    · obtain ⟨mid'', u, hdiscard, hrest⟩ := hrest.of_bind
      obtain rfl := ends_discard hdiscard
      obtain ⟨rfl, rfl⟩ := ends_done hrest
      exact .inr ⟨⟨fault, rfl⟩, hs'.erase_lookup⟩
  · obtain ⟨rfl, rfl⟩ := ends_done hrest
    exact .inr ⟨⟨fault, rfl⟩, rfl⟩

/-- The directories above a path. -/
def Above (path p : Path) : Prop := ∃ directory, path.parent? = some directory ∧ p ∈ directory.ancestors

theorem ends_replaceInside (h : Ends here fresh t (replaceInside path filling (directoryOf? path)) t' r) :
    (r = .ok () ∧ ∃ mid g, GrownBy here (Above path) t mid ∧
        mid.Put here path filling.pieces.flatten g t') ∨
      (∃ fault, r = .error fault) ∧ GrownBy here (Above path) t t' := by
  cases hdirectory : directoryOf? path with
  | none =>
    rw [hdirectory] at h
    obtain ⟨rfl, g, hput⟩ | ⟨hfault, hsame⟩ := ends_replaceIn h
    · exact .inl ⟨rfl, t, g, .refl t, hput⟩
    · exact .inr ⟨hfault, .of_lookup hsame⟩
  | some directory =>
    rw [hdirectory] at h
    have hparent : path.parent? = some directory := (Option.filter_eq_some_iff.mp hdirectory).1
    obtain ⟨mid, ensured, hensure, hrest⟩ := h.of_bind
    have hgrown : GrownBy here (Above path) t mid :=
      (ends_ensurePath hensure).mono fun p hp => ⟨directory, hparent, hp⟩
    cases ensured with
    | ok u =>
      obtain ⟨rfl, g, hput⟩ | ⟨hfault, hsame⟩ := ends_replaceIn hrest
      · exact .inl ⟨rfl, mid, g, hgrown, hput⟩
      · exact .inr ⟨hfault, hgrown.trans (.of_lookup hsame)⟩
    | error fault =>
      obtain ⟨rfl, rfl⟩ := ends_done hrest
      exact .inr ⟨⟨fault, rfl⟩, hgrown⟩

/-- A replacement that succeeds has made directories above its path and put the contents there; one that
fails has made directories at most. -/
theorem ends_replaceWith {r : Outcome Unit} (h : Ends here fresh t (replaceWith path filling).run t' r) :
    (r = .ok () ∧ ∃ mid g, GrownBy here (Above path) t mid ∧
        mid.Put here path filling.pieces.flatten g t') ∨
      (∃ e, r = .error e) ∧ GrownBy here (Above path) t t' := by
  change Ends here fresh t (replaceInside path filling (directoryOf? path) >>= fun r =>
    .done (r.mapError Action.failureOf)) t' r at h
  obtain ⟨mid, replaced, hreplace, hrest⟩ := h.of_bind
  obtain ⟨rfl, rfl⟩ := ends_done hrest
  obtain ⟨rfl, hput⟩ | ⟨⟨fault, rfl⟩, hgrown⟩ := ends_replaceInside hreplace
  · exact .inl ⟨rfl, hput⟩
  · exact .inr ⟨⟨Action.failureOf fault, rfl⟩, hgrown⟩

theorem ends_replace {contents : Bytes} {r : Outcome Unit}
    (h : Ends here fresh t (replace path contents).run t' r) :
    (r = .ok () ∧ ∃ mid g, GrownBy here (Above path) t mid ∧ mid.Put here path contents g t') ∨
      (∃ e, r = .error e) ∧ GrownBy here (Above path) t t' := by
  have hcontents : [contents].flatten = contents := List.flatten_singleton
  rw [← hcontents]
  exact ends_replaceWith h

end Atomic

end KeyCustody
