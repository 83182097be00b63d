import KeyCustody.Proofs.Paths
import KeyCustody.Proofs.Writing
/-! # Keys in their files

A write that succeeds leaves the halves of a key in two files next to each other and changes no other file.
The paths of both lead to them as long as directories stay where they are and nobody replaces the files. -/

namespace KeyCustody

namespace FileTree

variable {t t' : FileTree} {here : Location} {p : Path} {contents : Bytes} {g : Target}

/-- The target of the path of the public half. -/
def Target.publicKey (g : Target) : Target := { g with last := g.last ++ ".pub" }

structure Holds (t : FileTree) (here : Location) (p : Path) (contents : Bytes) (g : Target) : Prop where
  target : t.target here p = .ok g
  isName : g.isName = true
  slashes : g.slashes = false
  short : g.last.utf8ByteSize ≤ maxName
  file : t.file? g.location = some contents

theorem Put.holds (h : Put t here p contents g t') : t'.Holds here p contents g where
  target := target_kept h.directory_kept h.target
  isName := h.isName
  slashes := h.slashes
  short := h.short
  file := h.file?_location

namespace Holds

theorem read (h : t.Holds here p contents g) : t.read here p = .ok contents :=
  read_eq_ok.mpr ⟨g.location,
    resolve_target h.target h.isName h.slashes h.short (file?_eq_some.mp h.file), h.file⟩

theorem kept (h : t.Holds here p contents g)
    (hdir : ∀ l, t.lookup l = some .directory → t'.lookup l = some .directory)
    (hfile : t'.file? g.location = t.file? g.location) : t'.Holds here p contents g where
  target := target_kept hdir h.target
  isName := h.isName
  slashes := h.slashes
  short := h.short
  file := hfile.trans h.file

/-- The files of both halves have the targets of their paths. -/
theorem target_eq_publicKey {g' : Target} {contents' : Bytes} (h : t.Holds here p contents g)
    (h' : t.Holds here p.publicKey contents' g') : g' = g.publicKey := by
  have hlocation := target_publicKey h.target h.slashes h.isName h'.target h'.slashes h'.isName
  obtain ⟨hlast, hdirectory⟩ := List.cons.inj hlocation
  have hslashes := h'.slashes.trans h.slashes.symm
  obtain ⟨directory, last, slashes⟩ := g'
  simp only at hlast hdirectory hslashes
  rw [hlast, hdirectory, hslashes, Target.publicKey]

end Holds

/-- The public half stays in its file when the private one is put to its path. -/
theorem Put.publicKey_holds {mid later : FileTree} {publicContents : Bytes} {g' : Target}
    (hput' : Put mid here p.publicKey publicContents g' t) (hgrown : t.Grown later)
    (hput : Put later here p contents g t') : t'.Holds here p.publicKey publicContents g.publicKey := by
  have hdir : ∀ l, t.lookup l = some .directory → t'.lookup l = some .directory := fun l hl =>
    hput.directory_kept l (hgrown.kept l _ hl)
  have hne : g'.location ≠ g.location := Ne.symm <|
    publicKey_location_ne hput' (fun l hl => hdir l (hput'.directory_kept l hl)) hput.resolve
  have hholds := hput'.holds.kept hdir ((hput.file?_other hne).trans (hgrown.file?_eq _))
  rwa [hput.holds.target_eq_publicKey hholds] at hholds

end FileTree

namespace Custodian

variable {c : Custodian} {k : KeyPair} {path written : Path} {password : String} {w w' : World}

/-- The world `w'` has the texts of both halves of a key at a path and next to it, and otherwise the files
of `w`. -/
structure Stored (path : Path) (privateText publicText : String) (g : FileTree.Target) (w w' : World) :
    Prop where
  here : w'.here = w.here
  directory_kept : ∀ l, w.tree.lookup l = some .directory → w'.tree.lookup l = some .directory
  privateHalf : w'.tree.Holds w'.here path (Text.utf8 privateText) g
  publicHalf : w'.tree.Holds w'.here path.publicKey (Text.utf8 publicText) g.publicKey
  other : ∀ l, l ≠ g.location → l ≠ g.publicKey.location → w'.tree.file? l = w.tree.file? l

/-- A write that succeeds stores the payloads of both halves. -/
theorem stored_of_run (h : (c.privatePayload k password >>= store k path).runIn w = (.ok written, w')) :
    ∃ payload w₁ g, (c.privatePayload k password).runIn w = (.ok payload, w₁) ∧
      Stored path payload (publicPayload k) g w w' := by
  obtain ⟨-, payload, w₁, w₂, u, v, hpayload, hpublic, hprivate⟩ := stored_ok h
  obtain ⟨n, hn⟩ := c.privatePayload_world k password w
  rw [hpayload] at hn
  cases hn
  obtain ⟨mid, g', t, rfl, hmid, hput'⟩ := Atomic.replace_ok hpublic
  obtain ⟨mid', g, t', rfl, hmid', hput⟩ := Atomic.replace_ok hprivate
  have hdir' : ∀ l, t.lookup l = some .directory → t'.lookup l = some .directory := fun l hl =>
    hput.directory_kept l (hmid'.kept l _ hl)
  have hdir : ∀ l, w.tree.lookup l = some .directory → t'.lookup l = some .directory := fun l hl =>
    hdir' l (hput'.directory_kept l (hmid.kept l _ hl))
  have hpublicHalf := hput'.publicKey_holds hmid' hput
  have hg' : t'.target w.here path.publicKey = .ok g' := FileTree.target_kept hdir' hput'.holds.target
  obtain rfl : g.publicKey = g' := Except.ok.inj (hpublicHalf.target.symm.trans hg')
  refine ⟨payload, _, g, hpayload, rfl, hdir, hput.holds, hpublicHalf, fun l hl hl' => ?_⟩
  exact (hput.file?_other hl).trans ((hmid'.file?_eq l).trans
    ((hput'.file?_other hl').trans (hmid.file?_eq l)))

theorem Stored.kept {privateText publicText : String} {g g' : FileTree.Target} {p : Path}
    {contents : Bytes} (h : Stored path privateText publicText g w w')
    (hheld : w.tree.Holds w.here p contents g') (hprivate : path.lastSegment ≠ p.lastSegment)
    (hpublic : path.lastSegment ++ ".pub" ≠ p.lastSegment) : w'.tree.Holds w'.here p contents g' := by
  have hlast : g.last = path.lastSegment := FileTree.target_last h.privateHalf.target
  have hlast' : g'.last = p.lastSegment := FileTree.target_last hheld.target
  rw [h.here]
  refine hheld.kept h.directory_kept (h.other _ (fun heq => ?_) fun heq => ?_)
  · exact hprivate (hlast.symm.trans ((List.cons.inj heq).1.symm.trans hlast'))
  · have hname : g'.last = g.last ++ ".pub" := (List.cons.inj heq).1
    exact hpublic (hlast ▸ hname.symm.trans hlast')

theorem stored_of_write (h : (c.write k (some path) (some password)).runIn w = (.ok written, w')) :
    k.hasPrivate = true ∧ path.check = .ok () ∧ ∃ payload w₁ g,
      (c.privatePayload k password).runIn w = (.ok payload, w₁) ∧
        Stored path payload (publicPayload k) g w w' := by
  obtain ⟨hprivate, hpath, -⟩ := write_ok h
  rw [write_run hprivate hpath] at h
  exact ⟨hprivate, hpath, stored_of_run h⟩

end Custodian

end KeyCustody
