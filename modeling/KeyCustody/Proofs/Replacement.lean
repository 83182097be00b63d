import KeyCustody.Atomic
import KeyCustody.Proofs.Run
import KeyCustody.Proofs.Walk
/-! # Atomic replacement

A replacement either succeeds, and then the path leads to a file with the new contents and no other file
has changed, or it fails, and then no file has changed at all. In both cases the only other change are
the directories that were missing above the path. The temporary file is seen in neither. -/

namespace KeyCustody

/-- A later world that differs in new directories only. -/
def World.Grown (w w' : World) : Prop := ∃ t, w' = { w with tree := t } ∧ w.tree.Grown t

namespace World.Grown

variable {w w' w'' : World}

theorem refl (w : World) : World.Grown w w := ⟨w.tree, rfl, .refl _⟩

theorem trans (h : World.Grown w w') (h' : World.Grown w' w'') : World.Grown w w'' := by
  obtain ⟨t, rfl, ht⟩ := h
  obtain ⟨t', rfl, ht'⟩ := h'
  exact ⟨t', rfl, ht.trans ht'⟩

end World.Grown

namespace Atomic

variable {w w' : World} {path : Path} {filling : Filling} {here l : Location}
  {t s s' : FileTree} {contents : Bytes}

/-! ## Missing directories -/

theorem ensureDirectory_grown (p : Path) (w : World) :
    World.Grown w ((ensureDirectory p).run w).2 := by
  unfold ensureDirectory
  rw [Program.run_bind]
  cases hm : w.tree.makeDirectory w.here p with
  | ok t =>
    have hrun : (Program.makeDirectory p .done).run w = (.ok (), { w with tree := t }) := by
      simp [Program.run, hm, World.change]
    rw [hrun]
    exact ⟨t, rfl, FileTree.makeDirectory_grown hm⟩
  | error kind =>
    have hrun : (Program.makeDirectory p .done).run w = (.error kind.fault, w) := by
      simp [Program.run, hm, World.change]
    rw [hrun]
    by_cases hk : kind.fault.kind = .alreadyExists
    · simp only [hk, if_true, Program.run_bind]
      split <;> exact .refl w
    · simp only [hk, if_false]
      exact .refl w

theorem ensureDirectories_grown (ps : List Path) (w : World) :
    World.Grown w ((ensureDirectories ps).run w).2 := by
  induction ps generalizing w with
  | nil => exact .refl w
  | cons p ps ih =>
    have hp := ensureDirectory_grown p w
    rw [ensureDirectories, Program.run_bind]
    cases ((ensureDirectory p).run w).1 with
    | ok u => exact hp.trans (ih _)
    | error fault => exact hp

theorem climb_grown (ps : List Path) (w : World) : World.Grown w ((climb ps).run w).2 := by
  induction ps generalizing w with
  | nil => exact .refl w
  | cons p ps ih =>
    have hp := ensureDirectory_grown p w
    rw [climb]
    split
    · exact .refl w
    · rw [Program.run_bind]
      cases ((ensureDirectory p).run w).1 with
      | ok u => exact hp
      | error fault =>
        by_cases hk : fault.kind = .notFound
        · simp only [hk, if_true, Program.run_bind]
          refine hp.trans ((ih _).trans ?_)
          split <;> exact .refl _
        · simp only [hk, if_false]
          exact hp

theorem ensurePath_grown (p : Path) (w : World) : World.Grown w ((ensurePath p).run w).2 := by
  have hp := climb_grown p.ancestors w
  rw [ensurePath, Program.run_bind]
  cases ((climb p.ancestors).run w).1 with
  | ok missing => exact hp.trans (ensureDirectories_grown missing _)
  | error fault => exact hp

/-! ## The temporary file -/

/-- The tree `s` is `t` with a temporary file at a free place. -/
structure Staged (t : FileTree) (l : Location) (contents : Bytes) (s : FileTree) : Prop where
  below : l ≠ []
  free : t.lookup l = none
  lookup : ∀ l', s.lookup l' = if l' = l then some (.file contents) else t.lookup l'

namespace Staged

theorem of_makeTemporary {directory : Path} (h : t.makeTemporary here directory = .ok (l, s)) :
    Staged t l [] s := by
  obtain ⟨d, n, -, rfl, hfree, rfl⟩ := FileTree.makeTemporary_eq_ok h
  exact ⟨List.cons_ne_nil _ _, hfree, FileTree.lookup_insert t (List.cons_ne_nil _ _) _⟩

/-- A tree with a file is the tree without it and the file as a temporary one. -/
theorem of_lookup (hl : l ≠ []) (h : s.lookup l = some (.file contents)) :
    Staged (s.erase l) l contents s where
  below := hl
  free := by rw [FileTree.lookup_erase s hl, if_pos rfl]
  lookup l' := by
    rw [FileTree.lookup_erase s hl]
    split_ifs with hl'
    · rw [hl', h]
    · rfl

theorem append (h : Staged t l contents s) (more : Bytes) :
    Staged t l (contents ++ more) (s.append l more) where
  below := h.below
  free := h.free
  lookup l' := by
    have hl : s.lookup l = some (.file contents) := by rw [h.lookup, if_pos rfl]
    unfold FileTree.append
    rw [hl]
    change (s.insert l (.file (contents ++ more))).lookup l' = _
    rw [FileTree.lookup_insert s h.below, h.lookup]
    split_ifs <;> rfl

theorem erase_lookup (h : Staged t l contents s) : (s.erase l).lookup = t.lookup := by
  funext l'
  rw [FileTree.lookup_erase s h.below, h.lookup]
  split_ifs with hl
  · rw [hl, h.free]
  · rfl

theorem lookup_directory (h : Staged t l contents s) (l' : Location) :
    s.lookup l' = some .directory ↔ t.lookup l' = some .directory := by
  rw [h.lookup]
  split_ifs with hl
  · simp [hl, h.free]
  · rfl

theorem move (h : Staged t l contents s) (hm : s.move here l path = .ok s') :
    ∃ g, t.Put here path contents g s' := by
  unfold FileTree.move at hm
  cases hg : s.target here path with
  | error kind => rw [hg] at hm; cases hm
  | ok g =>
    have hl : s.lookup l = some (.file contents) := by rw [h.lookup, if_pos rfl]
    rw [hg] at hm
    simp only [bind, Except.bind] at hm
    split_ifs at hm with hname hlong hslash
    rw [hl] at hm
    have hplace : g.location ≠ [] := by simp [FileTree.Target.location]
    have hfree : s.lookup g.location ≠ some .directory := by
      intro hd
      rw [FileTree.Target.location] at hd
      rw [hd] at hm
      cases hm
    have hs' : s' = (s.erase l).insert g.location (.file contents) := by
      unfold FileTree.Target.location at hfree ⊢
      split at hm
      · cases ‹some _ = none›
      · exact absurd ‹_› hfree
      · cases ‹some _ = some _›
        cases hm
        rfl
    have htarget := FileTree.target_kept (fun l => (h.lookup_directory l).mp) hg
    refine ⟨g, htarget, by simpa using hname, by simpa using hslash, by omega, ?_, ?_⟩
    · rwa [ne_eq, ← h.lookup_directory]
    · intro l'
      rw [hs', FileTree.lookup_insert _ hplace, h.erase_lookup]

end Staged

/-! ## Replacing -/

theorem appendAll_run (h : Staged t l contents s) (w : World) (pieces : List Bytes) :
    ∃ s', (appendAll ⟨l⟩ pieces).run { w with tree := s } = (.ok (), { w with tree := s' }) ∧
      Staged t l (contents ++ pieces.flatten) s' := by
  induction pieces generalizing contents s with
  | nil => exact ⟨s, rfl, by simpa using h⟩
  | cons piece pieces ih =>
    obtain ⟨s', hrun, hs'⟩ := ih (h.append piece)
    refine ⟨s', ?_, by simpa using hs'⟩
    rw [appendAll, Program.run_bind]
    exact hrun

/-- What a replacement does in a directory that is there. -/
theorem replaceIn_run (directory path : Path) (filling : Filling) (w : World) :
    (∃ g t, (replaceIn directory path filling).run w = (.ok (), { w with tree := t }) ∧
      w.tree.Put w.here path filling.pieces.flatten g t) ∨
    ∃ fault t, (replaceIn directory path filling).run w = (.error fault, { w with tree := t }) ∧
      t.lookup = w.tree.lookup := by
  rw [replaceIn, Program.run_bind]
  cases hm : w.tree.makeTemporary w.here directory with
  | error kind =>
    right
    exact ⟨kind.fault, w.tree, by simp [Program.run, hm], rfl⟩
  | ok made =>
    obtain ⟨l, s⟩ := made
    have hmade : (Program.makeTemporary directory .done).run w =
        (.ok ⟨l⟩, { w with tree := s }) := by
      simp [Program.run, hm]
    obtain ⟨s', hfill, hs'⟩ := appendAll_run (Staged.of_makeTemporary hm) w filling.pieces
    rw [hmade]
    simp only [List.nil_append] at hs'
    simp only [fillAndMove, Program.run_bind, hfill]
    cases filling.fault with
    | some fault =>
      right
      exact ⟨fault, s'.erase l, rfl, hs'.erase_lookup⟩
    | none =>
      simp only [Program.run, Program.run_bind]
      cases hmove : s'.move w.here l path with
      | error kind =>
        right
        exact ⟨kind.fault, s'.erase l, rfl, hs'.erase_lookup⟩
      | ok t =>
        left
        obtain ⟨g, hput⟩ := hs'.move hmove
        exact ⟨g, t, rfl, hput⟩

/-- A replacement that succeeds has put a file at its path, after making directories; one that fails
has made directories at most. -/
theorem replaceWith_run (path : Path) (filling : Filling) (w : World) :
    (∃ mid g t, (replaceWith path filling).runIn w = (.ok (), { w with tree := t }) ∧
      w.tree.Grown mid ∧ mid.Put w.here path filling.pieces.flatten g t) ∨
    ∃ e t, (replaceWith path filling).runIn w = (.error e, { w with tree := t }) ∧
      w.tree.Grown t := by
  rw [replaceWith, Action.runIn_ofCall]
  cases directoryOf? path with
  | none =>
    cases replaceIn_run ⟨"."⟩ path filling w with
    | inl h =>
      obtain ⟨g, t, hrun, hput⟩ := h
      exact .inl ⟨w.tree, g, t, by simp only [hrun]; rfl, .refl _, hput⟩
    | inr h =>
      obtain ⟨fault, t, hrun, hsame⟩ := h
      exact .inr ⟨Action.failureOf fault, t, by simp only [hrun]; rfl, .of_lookup hsame⟩
  | some directory =>
    obtain ⟨mid, hmid, hgrown⟩ := ensurePath_grown directory w
    simp only [Program.run_bind, hmid]
    cases ((ensurePath directory).run w).1 with
    | error fault => exact .inr ⟨Action.failureOf fault, mid, rfl, hgrown⟩
    | ok u =>
      cases replaceIn_run directory path filling { w with tree := mid } with
      | inl h =>
        obtain ⟨g, t, hrun, hput⟩ := h
        exact .inl ⟨mid, g, t, by simp only [hrun]; rfl, hgrown, hput⟩
      | inr h =>
        obtain ⟨fault, t, hrun, hsame⟩ := h
        exact .inr ⟨Action.failureOf fault, t, by simp only [hrun]; rfl,
          hgrown.trans (.of_lookup hsame)⟩

theorem replace_ok {u : Unit} (h : (replace path contents).runIn w = (.ok u, w')) :
    ∃ mid g t, w' = { w with tree := t } ∧ w.tree.Grown mid ∧ mid.Put w.here path contents g t := by
  rw [replace] at h
  cases replaceWith_run path ⟨[contents], none⟩ w with
  | inl hok =>
    obtain ⟨mid, g, t, hrun, hgrown, hput⟩ := hok
    rw [hrun] at h
    cases h
    exact ⟨mid, g, t, rfl, hgrown, by simpa using hput⟩
  | inr herror =>
    obtain ⟨e, t, hrun, -⟩ := herror
    rw [hrun] at h
    cases h

end Atomic

end KeyCustody
