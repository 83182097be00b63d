import KeyCustody.Proofs.OrderlyReplacement
import KeyCustody.Proofs.Paths
/-! # Replacements of one file side by side

Any number of replacements at one path may take their turns in any order and be refused at any turn. At
every moment the place that the path names has its first contents, or all the contents of the replacement
that moved its file there last. No replacement touches the temporary file of another one, and none is left
when all have ended. -/

namespace KeyCustody

namespace Crowd

variable {ι : Type} {here : Location} {path : Path} {first t' : FileTree}
  {fillings : ι → Filling} {phases : ι → Phase} {phase' : Phase} {s s' : Crowd ι (Outcome Unit)}
  {i : ι} {l place : Location} {p' : Program (Outcome Unit)}

/-- Replacements at a path before their first turns. -/
def start (first : FileTree) (path : Path) (fillings : ι → Filling) : Crowd ι (Outcome Unit) where
  tree := first
  programs i := (Atomic.replaceWith path (fillings i)).run
  moved := []

/-- The contents that a file should have when files have been moved to `place`, by the last one of
`moved` last. -/
def due (first : FileTree) (fillings : ι → Filling) (moved : List ι) (place l : Location) :
    Option Bytes :=
  match moved with
  | [] => first.file? l
  | i :: _ => if l = place then (fillings i).complete? else first.file? l

theorem due_of_ne {moved : List ι} (h : l ≠ place) :
    due first fillings moved place l = first.file? l := by
  cases moved with
  | nil => rfl
  | cons i rest => exact if_neg h

/-- No replacement has its temporary file at a place. -/
def Unheld (phases : ι → Phase) (l : Location) : Prop :=
  ∀ i file contents, phases i = .holding file contents → file.location ≠ l

theorem Unheld.of_update [DecidableEq ι] (h : Unheld (Function.update phases i phase') l)
    (hi : ∀ file contents, phases i = .holding file contents → file.location ≠ l) :
    Unheld phases l := by
  intro j file contents hphase
  by_cases hj : j = i
  · exact hi file contents (hj ▸ hphase)
  · exact h j file contents (by rwa [Function.update_of_ne hj])

/-- The temporary file in hand is in the tree, at a place that had no file at first and that the path
does not name. -/
def Own (first : FileTree) (path : Path) (t : FileTree) (phase : Phase) : Prop :=
  ∀ file contents, phase = .holding file contents →
    t.lookup file.location = some (.file contents) ∧ first.file? file.location = none ∧
      ∃ name d, file.location = name :: d ∧ name ≠ path.lastSegment

/-- What holds at every moment. -/
structure Invariant (here : Location) (path : Path) (first : FileTree) (fillings : ι → Filling)
    (phases : ι → Phase) (s : Crowd ι (Outcome Unit)) : Prop where
  orderly : ∀ i, Orderly path (fillings i).complete? Atomic.settled (phases i) (s.programs i)
  own : ∀ i, Own first path s.tree (phases i)
  apart : ∀ i j file file' contents contents', phases i = .holding file contents →
    phases j = .holding file' contents' → file.location = file'.location → i = j
  moved : ∀ i, i ∈ s.moved ↔ phases i = .moved
  faultless : ∀ i ∈ s.moved, (fillings i).fault = none
  directories : ∀ l, first.lookup l = some .directory → s.tree.lookup l = some .directory
  /-- Once a file has been moved, the path names a place. -/
  named : s.moved ≠ [] → ∃ g, s.tree.target here path = .ok g ∧ g.isName = true ∧
    g.slashes = false ∧ g.last.utf8ByteSize ≤ FileTree.maxName
  settled : ∀ g : FileTree.Target, (s.moved ≠ [] → s.tree.target here path = .ok g) →
    ∀ l, Unheld phases l → s.tree.file? l = due first fillings s.moved g.location l

theorem Own.ne_location {t : FileTree} {phase : Phase} (h : Own first path t phase) {file : Temporary}
    {contents : Bytes} (hphase : phase = .holding file contents) {g : FileTree.Target}
    (hg : t'.target here path = .ok g) : file.location ≠ g.location := by
  obtain ⟨-, -, name, d, hl, hname⟩ := h file contents hphase
  rw [hl, FileTree.Target.location]
  intro heq
  exact hname ((List.cons.inj heq).1.trans (FileTree.target_last hg))

namespace Invariant

theorem start (here : Location) (path : Path) (first : FileTree) (fillings : ι → Filling) :
    Invariant here path first fillings (fun _ => .idle) (Crowd.start first path fillings) where
  orderly i := Atomic.orderly_replaceWith path (fillings i)
  own i := by rintro file contents ⟨⟩
  apart i j := by rintro file file' contents contents' ⟨⟩
  moved i := by simp [Crowd.start]
  faultless i := by simp [Crowd.start]
  directories l hl := hl
  named h := absurd rfl h
  settled g hg l hl := rfl

/-- The place that the path names is the same in every tree that has the directories. -/
theorem target_eq (h : Invariant here path first fillings phases s)
    (hdir : ∀ l, s.tree.lookup l = some .directory → t'.lookup l = some .directory)
    {g : FileTree.Target} (hg : t'.target here path = .ok g) (hmoved : s.moved ≠ []) :
    s.tree.target here path = .ok g := by
  obtain ⟨g', hg', -⟩ := h.named hmoved
  rw [FileTree.target_kept hdir hg'] at hg
  rwa [← Except.ok.inj hg]

theorem file?_of_ne (h : Invariant here path first fillings phases s) (hl : Unheld phases l)
    (hne : ∀ g, s.tree.target here path = .ok g → l ≠ g.location) :
    s.tree.file? l = first.file? l := by
  by_cases hmoved : s.moved = []
  · have hfile := h.settled ⟨[], "", false⟩ (fun hm => absurd hmoved hm) l hl
    rwa [hmoved] at hfile
  · obtain ⟨g, hg, -⟩ := h.named hmoved
    rw [h.settled g (fun _ => hg) l hl, due_of_ne (hne g hg)]

/-! ## Turns -/

section Turn

variable [DecidableEq ι]

/-- The others find their temporary files as they left them, and apart from the one in hand. -/
def Spared (phases : ι → Phase) (i : ι) (phase' : Phase) (t t' : FileTree) : Prop :=
  ∀ j ≠ i, ∀ file contents, phases j = .holding file contents →
    t'.lookup file.location = t.lookup file.location ∧
      ∀ file' contents', phase' = .holding file' contents' → file'.location ≠ file.location

theorem orderly_update (h : Invariant here path first fillings phases s)
    (horderly : Orderly path (fillings i).complete? Atomic.settled phase' p') (j : ι) :
    Orderly path (fillings j).complete? Atomic.settled (Function.update phases i phase' j)
      (Function.update s.programs i p' j) := by
  by_cases hj : j = i
  · subst hj
    rwa [Function.update_self, Function.update_self]
  · rw [Function.update_of_ne hj, Function.update_of_ne hj]
    exact h.orderly j

theorem own_update (h : Invariant here path first fillings phases s)
    (hown : Own first path t' phase') (hspared : Spared phases i phase' s.tree t') (j : ι) :
    Own first path t' (Function.update phases i phase' j) := by
  by_cases hj : j = i
  · subst hj
    rwa [Function.update_self]
  · rw [Function.update_of_ne hj]
    intro file contents hphase
    rw [(hspared j hj file contents hphase).1]
    exact h.own j file contents hphase

theorem apart_update (h : Invariant here path first fillings phases s)
    (hspared : Spared phases i phase' s.tree t') (j k : ι) (file file' : Temporary)
    (contents contents' : Bytes) (hj : Function.update phases i phase' j = .holding file contents)
    (hk : Function.update phases i phase' k = .holding file' contents')
    (heq : file.location = file'.location) : j = k := by
  by_cases hji : j = i <;> by_cases hki : k = i
  · rw [hji, hki]
  · subst hji
    rw [Function.update_self] at hj
    rw [Function.update_of_ne hki] at hk
    exact absurd heq ((hspared k hki _ _ hk).2 _ _ hj)
  · subst hki
    rw [Function.update_self] at hk
    rw [Function.update_of_ne hji] at hj
    exact absurd heq.symm ((hspared j hji _ _ hj).2 _ _ hk)
  · rw [Function.update_of_ne hji] at hj
    rw [Function.update_of_ne hki] at hk
    exact h.apart j k file file' contents contents' hj hk heq

/-- A turn that moves no file: one replacement changes its own temporary file at most. -/
theorem quiet (h : Invariant here path first fillings phases s)
    (horderly : Orderly path (fillings i).complete? Atomic.settled phase' p')
    (hmoved : phase' = .moved ↔ phases i = .moved)
    (hdir : ∀ l, s.tree.lookup l = some .directory → t'.lookup l = some .directory)
    (hown : Own first path t' phase') (hspared : Spared phases i phase' s.tree t')
    (hfiles : ∀ l, Unheld (Function.update phases i phase') l →
      (Unheld phases l ∧ t'.file? l = s.tree.file? l) ∨
        (t'.file? l = first.file? l ∧ ∀ g, t'.target here path = .ok g → l ≠ g.location)) :
    Invariant here path first fillings (Function.update phases i phase')
      ⟨t', Function.update s.programs i p', s.moved⟩ where
  orderly := h.orderly_update horderly
  own := h.own_update hown hspared
  apart := h.apart_update hspared
  moved j := by
    rw [h.moved]
    by_cases hj : j = i
    · rw [hj, Function.update_self, hmoved]
    · rw [Function.update_of_ne hj]
  faultless := h.faultless
  directories l hl := hdir l (h.directories l hl)
  named hm := by
    obtain ⟨g, hg, hsound⟩ := h.named hm
    exact ⟨g, FileTree.target_kept hdir hg, hsound⟩
  settled g hg l hl := by
    rcases hfiles l hl with ⟨hold, hfile⟩ | ⟨hfile, hne⟩
    · rw [hfile]
      exact h.settled g (fun hm => h.target_eq hdir (hg hm) hm) l hold
    · rw [hfile]
      cases hm : s.moved with
      | nil => rfl
      | cons j rest => exact (due_of_ne (hne g (hg (by simp [hm])))).symm

theorem move (h : Invariant here path first fillings phases s)
    (horderly : Orderly path (fillings i).complete? Atomic.settled .moved p') {file : Temporary}
    {contents : Bytes} (hphase : phases i = .holding file contents)
    (hcomplete : (fillings i).complete? = some contents) {g : FileTree.Target}
    (hput : (s.tree.erase file.location).Put here path contents g t') :
    Invariant here path first fillings (Function.update phases i .moved)
      ⟨t', Function.update s.programs i p', i :: s.moved⟩ := by
  obtain ⟨hfile, hfirst, name, d, hname, -⟩ := h.own i file contents hphase
  have herase : ∀ l, (s.tree.erase file.location).lookup l =
      if l = file.location then none else s.tree.lookup l :=
    FileTree.lookup_erase _ (by simp [hname])
  have hdir : ∀ l, s.tree.lookup l = some .directory → t'.lookup l = some .directory := by
    intro l hl
    refine hput.directory_kept l ?_
    rw [herase, if_neg, hl]
    rintro rfl
    rw [hl] at hfile
    cases hfile
  have hg : t'.target here path = .ok g := FileTree.target_kept hput.directory_kept hput.target
  have hother : ∀ l, l ≠ g.location → l ≠ file.location → t'.lookup l = s.tree.lookup l := by
    intro l hlg hlf
    rw [hput.lookup, if_neg hlg, herase, if_neg hlf]
  have hspared : Spared phases i .moved s.tree t' := by
    intro j hj file' contents' hphase'
    refine ⟨hother _ ((h.own j).ne_location hphase' hg) ?_, by rintro _ _ ⟨⟩⟩
    exact fun heq => hj (h.apart j i _ _ _ _ hphase' hphase heq)
  exact {
    orderly := h.orderly_update horderly
    own := h.own_update (by rintro _ _ ⟨⟩) hspared
    apart := h.apart_update hspared
    moved := by
      intro j
      by_cases hj : j = i
      · simp [hj]
      · simp [hj, h.moved]
    faultless := by
      intro j hj
      rcases List.mem_cons.mp hj with rfl | hj
      · exact Filling.fault_of_complete? hcomplete
      · exact h.faultless j hj
    directories := fun l hl => hdir l (h.directories l hl)
    named := fun _ => ⟨g, hg, hput.isName, hput.slashes, hput.short⟩
    settled := by
      intro g' hg' l hl
      obtain rfl : g = g' := Except.ok.inj (hg.symm.trans (hg' (List.cons_ne_nil _ _)))
      change t'.file? l = if l = g.location then _ else _
      split_ifs with hlg
      · rw [hlg, hcomplete]
        exact hput.file?_location
      · by_cases hlf : l = file.location
        · rw [hlf, hfirst, FileTree.file?, hput.lookup, if_neg (hlf ▸ hlg), herase, if_pos rfl]
        · rw [FileTree.file?_congr (hother l hlg hlf)]
          refine h.file?_of_ne (hl.of_update fun file' contents' hphase' => ?_) fun g' hg' => ?_
          · cases hphase.symm.trans hphase'
            exact fun heq => hlf heq.symm
          · rw [FileTree.target_kept hdir hg'] at hg
            rwa [Except.ok.inj hg] }

theorem alone (h : Invariant here path first fillings phases s)
    (horderly : Orderly path (fillings i).complete? Atomic.settled phase' p') {e : Option Entry}
    (hlookup : ∀ l', t'.lookup l' = if l' = l then e else s.tree.lookup l')
    (hfree : s.tree.lookup l ≠ some .directory) (hfirst : first.file? l = none)
    (hplace : ∃ name d, l = name :: d ∧ name ≠ path.lastSegment)
    (hbefore : phases i = .idle ∨ ∃ contents, phases i = .holding ⟨l⟩ contents)
    (hafter : (phase' = .idle ∧ e = none) ∨
      ∃ contents, phase' = .holding ⟨l⟩ contents ∧ e = some (.file contents))
    (hothers : ∀ j ≠ i, ∀ file contents, phases j = .holding file contents → file.location ≠ l) :
    Invariant here path first fillings (Function.update phases i phase')
      ⟨t', Function.update s.programs i p', s.moved⟩ := by
  have hkept : ∀ l', l' ≠ l → t'.lookup l' = s.tree.lookup l' := by
    intro l' hl'
    rw [hlookup, if_neg hl']
  have hhere : t'.lookup l = e := by rw [hlookup, if_pos rfl]
  refine h.quiet horderly ?_ ?_ ?_ ?_ ?_
  · rcases hbefore with hb | ⟨_, hb⟩ <;> rcases hafter with ⟨ha, -⟩ | ⟨_, ha, -⟩ <;> simp [hb, ha]
  · intro l' hl'
    rw [hkept l' fun heq => hfree (heq ▸ hl'), hl']
  · rintro file contents rfl
    obtain ⟨hidle, -⟩ | ⟨contents', hheld, rfl⟩ := hafter
    · cases hidle
    · cases hheld
      exact ⟨hhere, hfirst, hplace⟩
  · intro j hj file contents hheld
    refine ⟨hkept _ (hothers j hj file contents hheld), fun file' contents' hheld' heq => ?_⟩
    obtain ⟨rfl, -⟩ | ⟨_, rfl, -⟩ := hafter
    · cases hheld'
    · cases hheld'
      exact hothers j hj file contents hheld heq.symm
  · intro l' hl'
    by_cases heq : l' = l
    · subst heq
      obtain ⟨-, rfl⟩ | ⟨contents, rfl, -⟩ := hafter
      · refine .inr ⟨by rw [hfirst, FileTree.file?, hhere], fun g hg heq => ?_⟩
        obtain ⟨name, d, rfl, hname⟩ := hplace
        exact hname ((List.cons.inj heq).1.trans (FileTree.target_last hg))
      · exact absurd rfl (hl' i _ _ (Function.update_self ..))
    · refine .inl ⟨hl'.of_update fun file contents hheld hfile => ?_, FileTree.file?_congr (hkept l' heq)⟩
      obtain hb | ⟨_, hb⟩ := hbefore
      · cases hb.symm.trans hheld
      · cases hb.symm.trans hheld
        exact heq hfile.symm

/-- Every turn of every replacement keeps the invariant. -/
theorem turn (h : Invariant here path first fillings phases s)
    (hstep : Step here (· ≠ path.lastSegment) s s') :
    ∃ phases', Invariant here path first fillings phases' s' := by
  obtain ⟨i, hstep⟩ := hstep
  have hstored : (phases i).StoredIn s.tree := by
    intro file contents hphase
    obtain ⟨hfile, -, name, d, hname, -⟩ := h.own i file contents hphase
    exact ⟨by simp [hname], hfile⟩
  obtain ⟨phase', horderly, hchange⟩ := (h.orderly i).turn hstored hstep
  refine ⟨Function.update phases i phase', ?_⟩
  generalize hphase : phases i = phase at hchange
  cases hchange with
  | grow hgrown =>
    refine h.quiet horderly (by rw [hphase]) (fun l hl => hgrown.kept l _ hl) ?_ ?_ ?_
    · intro file contents hheld
      obtain ⟨hfile, hrest⟩ := h.own i file contents (hphase.trans hheld)
      exact ⟨hgrown.kept _ _ hfile, hrest⟩
    · intro j hj file contents hheld
      obtain ⟨hfile, -⟩ := h.own j file contents hheld
      refine ⟨by rw [hfile, hgrown.kept _ _ hfile], fun file' contents' hheld' heq => ?_⟩
      exact hj (h.apart j i _ _ _ _ hheld (hphase.trans hheld') heq.symm)
    · intro l hl
      rw [← hphase, Function.update_eq_self] at hl
      exact .inl ⟨hl, hgrown.file?_eq l⟩
  | @make name d t' hname hfree hlookup =>
    have hheld : Unheld phases (name :: d) := by
      intro j file contents hheld heq
      have hfile := (h.own j file contents hheld).1
      rw [heq, hfree] at hfile
      cases hfile
    have hfirst : first.file? (name :: d) = none := by
      rw [← h.file?_of_ne hheld, FileTree.file?, hfree]
      exact fun g hg heq => hname ((List.cons.inj heq).1.trans (FileTree.target_last hg))
    exact h.alone horderly hlookup (by simp [hfree]) hfirst ⟨name, d, rfl, hname⟩ (.inl hphase)
      (.inr ⟨[], rfl, rfl⟩) fun j _ => hheld j
  | @store file contents _ _ hlookup =>
    obtain ⟨hfile, hfirst, hplace⟩ := h.own i file contents hphase
    exact h.alone horderly hlookup (by simp [hfile]) hfirst hplace (.inr ⟨contents, hphase⟩)
      (.inr ⟨_, rfl, rfl⟩) fun j hj _ _ hheld heq => hj (h.apart j i _ _ _ _ hheld hphase heq)
  | @discard file contents _ hlookup =>
    obtain ⟨hfile, hfirst, hplace⟩ := h.own i file contents hphase
    exact h.alone horderly hlookup (by simp [hfile]) hfirst hplace (.inr ⟨contents, hphase⟩)
      (.inl ⟨rfl, rfl⟩) fun j hj _ _ hheld heq => hj (h.apart j i _ _ _ _ hheld hphase heq)
  | move hcomplete hput => exact h.move horderly hphase hcomplete hput

/-- The invariant holds at every moment. -/
theorem of_reaches
    (h : Reaches here (· ≠ path.lastSegment) (Crowd.start first path fillings) s) :
    ∃ phases, Invariant here path first fillings phases s := by
  induction h with
  | refl => exact ⟨_, start here path first fillings⟩
  | tail _ hstep ih =>
    obtain ⟨phases, hinv⟩ := ih
    exact hinv.turn hstep

end Turn

end Invariant

/-- Whatever turns have been taken, the place that the path names has its first contents, or the complete
contents of the replacement that moved its file last, which are what the path leads to. A replacement
succeeds exactly if it has moved its file. When all have ended, every other file is as it was at first:
no temporary file is left. -/
theorem replacements_atomic [DecidableEq ι]
    (h : Reaches here (· ≠ path.lastSegment) (start first path fillings) s) :
    (∀ g, s.tree.target here path = .ok g → s.tree.file? g.location =
        match s.moved with
        | [] => first.file? g.location
        | i :: _ => (fillings i).complete?) ∧
      (s.moved = [] → ∀ contents, first.read here path = .ok contents →
        s.tree.read here path = .ok contents) ∧
      (∀ i rest, s.moved = i :: rest → (fillings i).fault = none ∧
        s.tree.read here path = .ok (fillings i).pieces.flatten) ∧
      (∀ i r, s.programs i = .done r → (r = .ok () ↔ i ∈ s.moved)) ∧
      (s.Finished → ∀ l, s.tree.file? l ≠ first.file? l →
        ∃ g, s.tree.target here path = .ok g ∧ l = g.location) := by
  obtain ⟨phases, hinv⟩ := Invariant.of_reaches h
  have hplace : ∀ g, s.tree.target here path = .ok g → s.tree.file? g.location =
      due first fillings s.moved g.location g.location := fun g hg =>
    hinv.settled g (fun _ => hg) _ fun i file contents hheld => (hinv.own i).ne_location hheld hg
  refine ⟨?_, ?_, ?_, ?_, ?_⟩
  · intro g hg
    rw [hplace g hg]
    cases s.moved with
    | nil => rfl
    | cons i rest => exact if_pos rfl
  · intro hmoved contents hread
    obtain ⟨l, hl, hfile⟩ := FileTree.read_eq_ok.mp hread
    have hunheld : Unheld phases l := by
      intro i file contents' hheld heq
      have hfirst := (hinv.own i file contents' hheld).2.1
      rw [heq, hfile] at hfirst
      cases hfirst
    have hsame : s.tree.file? l = some contents := by
      have hsettled := hinv.settled ⟨[], "", false⟩ (fun hm => absurd hmoved hm) l hunheld
      rw [hsettled, hmoved]
      exact hfile
    refine FileTree.read_eq_ok.mpr ⟨l, FileTree.resolve_kept hinv.directories (fun b hb => ?_) hl, hsame⟩
    exact ⟨contents, FileTree.file?_eq_some.mp hsame⟩
  · intro i rest hmoved
    obtain ⟨g, hg, hname, hslashes, hshort⟩ := hinv.named (by simp [hmoved])
    have hfault := hinv.faultless i (by simp [hmoved])
    have hfile := hplace g hg
    rw [hmoved, due, if_pos rfl, Filling.complete?, hfault] at hfile
    exact ⟨hfault, FileTree.read_eq_ok.mpr ⟨g.location,
      FileTree.resolve_target hg hname hslashes hshort (FileTree.file?_eq_some.mp hfile), hfile⟩⟩
  · intro i r hdone
    rw [hinv.moved]
    obtain ⟨rfl, hphase⟩ | ⟨⟨e, rfl⟩, hphase⟩ := (hdone ▸ hinv.orderly i).ended
    · simp [hphase]
    · simp [hphase]
  · intro hfinished l hl
    have hunheld : Unheld phases l := by
      intro i file contents hheld
      obtain ⟨r, hdone⟩ := hfinished i
      obtain ⟨-, hphase⟩ | ⟨-, hphase⟩ := (hdone ▸ hinv.orderly i).ended <;>
        cases hphase.symm.trans hheld
    by_contra hnone
    push Not at hnone
    exact hl (hinv.file?_of_ne hunheld hnone)

def pair : Bool → Filling
  | false => ⟨[[3]], none⟩
  | true => ⟨[[1], [2]], none⟩

/-- One replacement makes its temporary file, the other one takes all of its turns, and then the first
one is refused to store what it has appended. -/
theorem reaches_pair : ∃ s, Reaches [] (· ≠ (Path.mk "k").lastSegment)
    (start .empty ⟨"k"⟩ pair) s ∧ s.programs true = .done (.ok ()) ∧
      s.programs false = .done (.error (.io .other "")) := by
  have hlast : (Path.mk "k").lastSegment = "k" := by decide
  have hfresh : ∀ n, FileTree.temporaryName n ≠ (Path.mk "k").lastSegment := by
    intro n h
    have hchars := congrArg String.toList (h.trans hlast)
    simp [FileTree.temporaryName] at hchars
  obtain ⟨p, hmake, hrest⟩ : ∃ p, Program.Step [] (· ≠ (Path.mk "k").lastSegment) .empty
      ((start .empty ⟨"k"⟩ pair).programs false) false (FileTree.empty.insert ["b"] (.file [])) p ∧
      ∀ t, ∃ p' t' p'' t'', Program.Step [] (· ≠ (Path.mk "k").lastSegment) t p false t' p' ∧
        Program.Step [] (· ≠ (Path.mk "k").lastSegment) t' p' false t'' p'' ∧
        p'' = .done (.error (.io .other "")) := by
    change ∃ p, Program.Step [] _ .empty (Atomic.replaceWith ⟨"k"⟩ (pair false)).run _ _ _ ∧ _
    rw [Atomic.replaceWith_run_here (by decide)]
    exact ⟨_, .makeTemporary rfl (by decide) rfl, fun t =>
      ⟨_, _, _, _, .append_refused (List.prefix_refl _) ⟨.other, ""⟩, .discard, rfl⟩⟩
  let w : World :=
    { World.start [] [] fun _ => 0 with tree := FileTree.empty.insert ["b"] (.file []) }
  have hstart : Reaches [] (· ≠ (Path.mk "k").lastSegment) (start .empty ⟨"k"⟩ pair)
      (start .empty ⟨"k"⟩ pair) := .refl
  have hfirst := reaches_turn hstart false hmake
  have hends : Program.Ends [] (· ≠ (Path.mk "k").lastSegment) w.tree
      (Atomic.replaceIn ⟨"."⟩ ⟨"k"⟩ (pair true)) _ _ := Program.ends_run hfresh _ w
  have hdone : ((Atomic.replaceIn ⟨"."⟩ ⟨"k"⟩ (pair true)).run w).1 = .ok () := by
    have hok : ((Atomic.replaceIn ⟨"."⟩ ⟨"k"⟩ (pair true)).run w).1.toOption = some () := by
      decide +kernel
    cases hr : ((Atomic.replaceIn ⟨"."⟩ ⟨"k"⟩ (pair true)).run w).1 with
    | ok u => rfl
    | error e => rw [hr] at hok; cases hok
  rw [hdone] at hends
  have hhere : Atomic.directoryOf? ⟨"k"⟩ = none := by decide
  obtain ⟨moved, hsecond⟩ := reaches_ends
    (s := ⟨w.tree, Function.update (start .empty ⟨"k"⟩ pair).programs false p, []⟩) true hends rfl
    (Atomic.replaceWith_run_here hhere (pair true))
  obtain ⟨p', t', p'', t'', happend, hdiscard, rfl⟩ :=
    hrest ((Atomic.replaceIn ⟨"."⟩ ⟨"k"⟩ (pair true)).run w).2.tree
  have hthird := reaches_turn (hfirst.trans hsecond) false happend
  exact ⟨_, reaches_turn hthird false hdiscard, rfl, rfl⟩

theorem replacements_atomic_pair :
    ∃ s, Reaches [] (· ≠ (Path.mk "k").lastSegment) (start .empty ⟨"k"⟩ pair) s ∧
      s.programs false = .done (.error (.io .other "")) ∧ s.tree.read [] ⟨"k"⟩ = .ok [1, 2] ∧
      ∀ l, s.tree.file? l ≠ FileTree.empty.file? l →
        ∃ g, s.tree.target [] ⟨"k"⟩ = .ok g ∧ l = g.location := by
  obtain ⟨s, hreaches, htrue, hfalse⟩ := reaches_pair
  obtain ⟨-, -, hread, hdone, hfinished⟩ := replacements_atomic hreaches
  have hmoved : true ∈ s.moved := (hdone true _ htrue).mp rfl
  have hnot : false ∉ s.moved := by simp [← hdone false _ hfalse]
  refine ⟨s, hreaches, hfalse, ?_, hfinished fun b => ?_⟩
  · cases hlist : s.moved with
    | nil => simp [hlist] at hmoved
    | cons b rest =>
      have hb : b = true := by
        cases b with
        | true => rfl
        | false => simp [hlist] at hnot
      exact (hread b rest hlist).2.trans (by rw [hb]; rfl)
  · cases b with
    | true => exact ⟨_, htrue⟩
    | false => exact ⟨_, hfalse⟩

end Crowd

end KeyCustody
