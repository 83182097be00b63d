import KeyCustody.Proofs.FileTree
/-! # Following paths in a tree that grows

Directories that are made on the way to a file only add to a tree: every entry stays, and every new
one is a directory. Paths that lead through directories lead to the same place in the larger tree. A
file that has been moved to a path is what the path leads to afterwards. -/

namespace KeyCustody.FileTree

variable {t t' t'' : FileTree} {here l d : Location} {p : Path} {contents : Bytes}

/-- A later tree, which has all the entries of an earlier one, and new ones that are directories. -/
structure Grown (t t' : FileTree) : Prop where
  kept : ∀ l e, t.lookup l = some e → t'.lookup l = some e
  new : ∀ l, t.lookup l = none → t'.lookup l = none ∨ t'.lookup l = some .directory

namespace Grown

theorem of_lookup (h : t'.lookup = t.lookup) : Grown t t' where
  kept l e hl := by rw [h, hl]
  new l hl := by rw [h, hl]; exact .inl rfl

theorem refl (t : FileTree) : Grown t t := of_lookup rfl

theorem trans (h : Grown t t') (h' : Grown t' t'') : Grown t t'' where
  kept l e hl := h'.kept l e (h.kept l e hl)
  new l hl := by
    cases h.new l hl with
    | inl hn => exact h'.new l hn
    | inr hd => exact .inr (h'.kept l _ hd)

theorem insert_directory (hl : l ≠ []) (h : t.lookup l = none) :
    Grown t (t.insert l .directory) where
  kept l' e he := by
    have hne : l' ≠ l := by
      rintro rfl
      rw [h] at he
      cases he
    rw [lookup_insert t hl, if_neg hne, he]
  new l' hn := by
    rw [lookup_insert t hl]
    split_ifs
    · exact .inr rfl
    · exact .inl hn

theorem file?_eq (h : Grown t t') (l : Location) : t'.file? l = t.file? l := by
  cases he : t.lookup l with
  | some e => exact file?_congr (by rw [he, h.kept l e he])
  | none =>
    have hnew := h.new l he
    unfold file?
    rw [he]
    cases hnew with
    | inl hn => rw [hn]
    | inr hd => rw [hd]

end Grown

theorem makeDirectory_grown (h : t.makeDirectory here p = .ok t') : Grown t t' := by
  unfold makeDirectory at h
  cases ht : t.target here p with
  | error kind => rw [ht] at h; cases h
  | ok g =>
    rw [ht] at h
    simp only [bind, Except.bind] at h
    split_ifs at h with hname hlong
    cases hl : t.lookup (g.last :: g.directory) with
    | some e => rw [hl] at h; cases h
    | none =>
      rw [hl] at h
      cases h
      exact Grown.insert_directory (by simp) hl

/-! ## Following -/

/-- Segments with an empty one at the end lead through directories, and so lead to the same place in
every tree that has these directories. -/
theorem follow_append (hdir : ∀ l, t.lookup l = some .directory → t'.lookup l = some .directory)
    {xs : List String} (h : t.follow l (xs ++ [""]) = .ok d) (ys : List String) :
    t'.follow l (xs ++ ys) = t'.follow d ys := by
  induction xs generalizing l with
  | nil =>
    have hd : l = d := by simpa [follow] using h
    rw [List.nil_append, hd]
  | cons s xs ih =>
    rw [List.cons_append, follow] at h ⊢
    by_cases hidle : s = "" ∨ s = "."
    · rw [if_pos hidle] at h ⊢
      exact ih h
    by_cases hup : s = ".."
    · rw [if_neg hidle, if_pos hup] at h ⊢
      exact ih h
    by_cases hlong : s.utf8ByteSize > maxName
    · rw [if_neg hidle, if_neg hup, if_pos hlong] at h
      cases h
    rw [if_neg hidle, if_neg hup, if_neg hlong] at h ⊢
    cases hs : t.lookup (s :: l) with
    | none => rw [hs] at h; cases h
    | some e =>
      rw [hs] at h
      cases e with
      | directory =>
        rw [hdir _ hs]
        exact ih h
      | file b => simp at h

/-- Paths name the same place in every tree that has the directories. -/
theorem target_kept (hdir : ∀ l, t.lookup l = some .directory → t'.lookup l = some .directory)
    {g : Target} (h : t.target here p = .ok g) : t'.target here p = .ok g := by
  unfold target at h ⊢
  cases hp : segments p with
  | error kind => rw [hp] at h; cases h
  | ok ss =>
    rw [hp] at h
    simp only [bind, Except.bind] at h ⊢
    split at h
    · cases h
    next d hd =>
      rw [follow_append hdir hd [""]]
      simpa [follow] using h

/-- Segments lead to the same place in every tree that has the directories, and has a file where they
lead to one. -/
theorem follow_kept (hdir : ∀ l, t.lookup l = some .directory → t'.lookup l = some .directory)
    (hfile : ∀ b, t.lookup d = some (.file b) → ∃ b', t'.lookup d = some (.file b'))
    {ss : List String} (h : t.follow l ss = .ok d) : t'.follow l ss = .ok d := by
  induction ss generalizing l with
  | nil => exact h
  | cons s ss ih =>
    rw [follow] at h ⊢
    by_cases hidle : s = "" ∨ s = "."
    · rw [if_pos hidle] at h ⊢
      exact ih h
    by_cases hup : s = ".."
    · rw [if_neg hidle, if_pos hup] at h ⊢
      exact ih h
    by_cases hlong : s.utf8ByteSize > maxName
    · rw [if_neg hidle, if_neg hup, if_pos hlong] at h
      cases h
    rw [if_neg hidle, if_neg hup, if_neg hlong] at h ⊢
    cases hs : t.lookup (s :: l) with
    | none => rw [hs] at h; cases h
    | some e =>
      rw [hs] at h
      cases e with
      | directory =>
        rw [hdir _ hs]
        exact ih h
      | file b =>
        by_cases hss : ss.isEmpty
        · have hd : s :: l = d := by simpa [hss] using h
          obtain ⟨b', hb'⟩ := hfile b (hd ▸ hs)
          rw [hd, hb']
          simp [hss]
        · simp [hss] at h

theorem resolve_kept (hdir : ∀ l, t.lookup l = some .directory → t'.lookup l = some .directory)
    (hfile : ∀ b, t.lookup l = some (.file b) → ∃ b', t'.lookup l = some (.file b'))
    (h : t.resolve here p = .ok l) : t'.resolve here p = .ok l := by
  unfold FileTree.resolve at h ⊢
  cases hs : segments p with
  | error kind => rw [hs] at h; cases h
  | ok ss =>
    rw [hs] at h
    exact follow_kept hdir hfile h

theorem Grown.resolve (h : Grown t t') (hr : t.resolve here p = .ok l) :
    t'.resolve here p = .ok l :=
  resolve_kept (fun l hl => h.kept l _ hl) (fun b hb => ⟨b, h.kept _ _ hb⟩) hr

theorem read_eq_ok :
    t.read here p = .ok contents ↔ ∃ l, t.resolve here p = .ok l ∧ t.file? l = some contents := by
  unfold FileTree.read file?
  cases t.resolve here p with
  | error kind => simp [bind, Except.bind]
  | ok l =>
    simp only [bind, Except.bind, Except.ok.injEq, exists_eq_left']
    cases t.lookup l with
    | none => simp
    | some e => cases e <;> simp [pure, Except.pure]

theorem follow_name {s : String} (h : t.follow d [s] = .ok l) :
    l = d ∨ l = d.tail ∨ l = s :: d := by
  rw [follow] at h
  by_cases hidle : s = "" ∨ s = "."
  · rw [if_pos hidle] at h
    exact .inl (by simpa [follow] using h.symm)
  by_cases hup : s = ".."
  · rw [if_neg hidle, if_pos hup] at h
    exact .inr (.inl (by simpa [follow] using h.symm))
  by_cases hlong : s.utf8ByteSize > maxName
  · rw [if_neg hidle, if_neg hup, if_pos hlong] at h
    cases h
  rw [if_neg hidle, if_neg hup, if_neg hlong] at h
  right; right
  cases hs : t.lookup (s :: d) with
  | none => rw [hs] at h; cases h
  | some e =>
    rw [hs] at h
    cases e with
    | directory => simpa [follow] using h.symm
    | file b => simpa using h.symm

/-- The place of the entry that a target names. -/
def Target.location (g : Target) : Location := g.last :: g.directory

/-- The tree `t'` is `t` with a file at the place that a path names. -/
structure Put (t : FileTree) (here : Location) (p : Path) (contents : Bytes) (g : Target)
    (t' : FileTree) : Prop where
  target : t.target here p = .ok g
  isName : g.isName = true
  slashes : g.slashes = false
  short : g.last.utf8ByteSize ≤ maxName
  free : t.lookup g.location ≠ some .directory
  lookup : ∀ l, t'.lookup l = if l = g.location then some (.file contents) else t.lookup l

/-- A path without slashes at its end consists of the segments up to its target's directory and the
target's name. -/
theorem target_eq_ok {g : Target} (h : t.target here p = .ok g) (hs : g.slashes = false)
    (hn : g.isName = true) :
    ∃ xs, segments p = .ok (xs ++ [g.last]) ∧
      t.follow (origin here p) (xs ++ [""]) = .ok g.directory := by
  unfold target at h
  cases hp : segments p with
  | error kind => rw [hp] at h; cases h
  | ok ss =>
    rw [hp] at h
    simp only [bind, Except.bind] at h
    split at h
    · cases h
    next d hd =>
      cases h
      rcases List.eq_nil_or_concat ss with rfl | ⟨xs, s, rfl⟩
      · simp [Target.isName] at hn
      · have hne : s ≠ "" := by simpa using hs
        have hdrop : (xs ++ [s]).reverse.dropWhile (· == "") = s :: xs.reverse := by simp [hne]
        rw [List.concat_eq_append, hdrop] at hd
        refine ⟨xs, ?_, by simpa using hd⟩
        rw [List.concat_eq_append, hdrop]
        rfl

theorem resolve_target {g : Target} (h : t.target here p = .ok g) (hn : g.isName = true)
    (hs : g.slashes = false) (hshort : g.last.utf8ByteSize ≤ maxName)
    (hfile : t.lookup g.location = some (.file contents)) : t.resolve here p = .ok g.location := by
  obtain ⟨xs, hp, hd⟩ := target_eq_ok h hs hn
  have hlast : t.lookup (g.last :: g.directory) = some (.file contents) := hfile
  simp only [Target.isName, Bool.and_eq_true, bne_iff_ne] at hn
  unfold FileTree.resolve
  rw [hp]
  change t.follow (origin here p) (xs ++ [g.last]) = _
  rw [follow_append (fun _ => id) hd, follow, if_neg (by tauto), if_neg hn.2, if_neg (by omega), hlast]
  rfl

namespace Put

variable {g : Target}

theorem directory_kept (h : Put t here p contents g t') (l : Location)
    (hl : t.lookup l = some .directory) : t'.lookup l = some .directory := by
  rw [h.lookup, if_neg, hl]
  rintro rfl
  exact h.free hl

theorem file?_location (h : Put t here p contents g t') : t'.file? g.location = some contents := by
  rw [file?_eq_some, h.lookup, if_pos rfl]

theorem file?_other (h : Put t here p contents g t') (hl : l ≠ g.location) :
    t'.file? l = t.file? l :=
  file?_congr (by rw [h.lookup, if_neg hl])

theorem resolve (h : Put t here p contents g t') : t'.resolve here p = .ok g.location :=
  resolve_target (target_kept h.directory_kept h.target) h.isName h.slashes h.short
    (file?_eq_some.mp h.file?_location)

theorem read (h : Put t here p contents g t') : t'.read here p = .ok contents :=
  read_eq_ok.mpr ⟨g.location, h.resolve, h.file?_location⟩

end Put

end KeyCustody.FileTree
