import KeyCustody.Proofs.WriteFrame
/-! # What a failed write leaves

The two halves of a key are replaced one after the other, each of them atomically. A write that fails, at
whatever call the host refuses, never changes the file of the private half. It changes the file of the public
half only if it fails after that file has been replaced, and then the file has all of the new contents. -/

namespace KeyCustody.Custodian

open Program

variable {c : Custodian} {k : KeyPair} {path : Path} {password : String} {here : Location}
  {fresh : String → Prop} {t t' : FileTree} {e : Failure}

/-- The public half has been replaced, and the replacement of the private half has failed. -/
def StoppedBetween (c : Custodian) (k : KeyPair) (path : Path) (password : String) (here : Location)
    (fresh : String → Prop) (t t' : FileTree) (e : Failure) : Prop :=
  ∃ payload mid, c.Prepares k password payload ∧
    Ends here fresh t (Atomic.replace path.publicKey (Text.utf8 (publicPayload k))).run mid (.ok ()) ∧
    Ends here fresh mid (Atomic.replace path (Text.utf8 payload)).run t' (.error e)

/-- A write that stopped between the halves has changed the file of the public half and no other. -/
theorem StoppedBetween.files (h : StoppedBetween c k path password here fresh t t' e) :
    ∃ l, t'.resolve here path.publicKey = .ok l ∧ t'.file? l = some (Text.utf8 (publicPayload k)) ∧
      (∀ l' ≠ l, t'.file? l' = t.file? l') ∧
      (∀ l', t.lookup l' = some .directory → t'.lookup l' = some .directory) ∧ t'.resolve here path ≠ .ok l := by
  obtain ⟨payload, mid, -, hpublic, hprivate⟩ := h
  obtain ⟨-, grown, g, hgrown, hput⟩ | ⟨⟨_, ⟨⟩⟩, -⟩ := Atomic.ends_replace hpublic
  obtain ⟨⟨⟩, -⟩ | ⟨-, hlater⟩ := Atomic.ends_replace hprivate
  have hdir : ∀ l, grown.lookup l = some .directory → t'.lookup l = some .directory :=
    fun l hl => hlater.grown.kept l _ (hput.directory_kept l hl)
  refine ⟨g.location, hlater.grown.resolve hput.resolve, ?_, ?_, ?_, ?_⟩
  · exact (hlater.grown.file?_eq _).trans hput.file?_location
  · intro l hl
    exact (hlater.grown.file?_eq l).trans ((hput.file?_other hl).trans (hgrown.grown.file?_eq l))
  · exact fun l hl => hdir l (hgrown.grown.kept l _ hl)
  · exact fun hl => FileTree.publicKey_location_ne hput hdir hl rfl

/-- A write that fails has made directories at most, unless it stopped between the two halves. -/
theorem grown_of_write_error (h : Ends here fresh t (c.write k (some path) (some password)).run t' (.error e)) :
    t.Grown t' ∨ StoppedBetween c k path password here fresh t t' e := by
  cases hk : k.hasPrivate with
  | false =>
    rw [write_eq_throw hk] at h
    exact .inl ((ends_done h).2 ▸ .refl t)
  | true =>
    cases hpath : path.check with
    | error refusal =>
      rw [write_eq_refused hpath hk] at h
      exact .inl ((ends_done h).2 ▸ .refl t)
    | ok u =>
      rw [write_eq_given hk hpath] at h
      obtain ⟨payload, hpayload, h⟩ | ⟨rfl, -⟩ := (privatePayload_keepsTree c k password).ends_bind h
      · have hprepares := ((draws_privatePayload c k password).ends hpayload).2 payload rfl
        obtain ⟨⟨⟩, mid, hpublic, h⟩ | ⟨_, hpublic, -⟩ := Action.ends_bind h
        · obtain ⟨⟨⟩, _, -, h⟩ | ⟨_, hprivate, he⟩ := Action.ends_bind h
          · cases (ends_done h).1
          · exact .inr ⟨payload, mid, hprepares, hpublic, Except.error.inj he ▸ hprivate⟩
        · obtain ⟨⟨⟩, -⟩ | ⟨-, hgrown⟩ := Atomic.ends_replace hpublic
          exact .inl hgrown.grown
      · exact .inl (.refl _)

/-- After a write that failed, every file has the contents that it had and there is no new one, except
that the file of the public half has all of its new contents if the write stopped between the two
halves. What the path of the private half leads to is never the exception. -/
theorem write_error_files
    (h : Ends here fresh t (c.write k (some path) (some password)).run t' (.error e)) :
    (¬ StoppedBetween c k path password here fresh t t' e → ∀ l, t'.file? l = t.file? l) ∧
      (StoppedBetween c k path password here fresh t t' e →
        ∃ l, t'.resolve here path.publicKey = .ok l ∧
          t'.file? l = some (Text.utf8 (publicPayload k)) ∧ ∀ l' ≠ l, t'.file? l' = t.file? l') ∧
      (∀ l, t'.resolve here path = .ok l → t'.file? l = t.file? l) ∧
      ∀ contents, t.read here path = .ok contents → t'.read here path = .ok contents := by
  by_cases hstop : StoppedBetween c k path password here fresh t t' e
  · obtain ⟨l, hl, hnew, hother, hdir, hne⟩ := hstop.files
    refine ⟨fun hn => absurd hstop hn, fun _ => ⟨l, hl, hnew, hother⟩, ?_, ?_⟩
    · intro l' hl'
      exact hother l' fun heq => hne (heq ▸ hl')
    · intro contents hread
      obtain ⟨l', hl', hfile⟩ := FileTree.read_eq_ok.mp hread
      have hkept : t'.resolve here path = .ok l' := by
        refine FileTree.resolve_kept hdir (fun b hb => ?_) hl'
        by_cases heq : l' = l
        · exact ⟨_, heq ▸ FileTree.file?_eq_some.mp hnew⟩
        · rw [← FileTree.file?_eq_some, ← hother l' heq] at hb
          exact ⟨b, FileTree.file?_eq_some.mp hb⟩
      refine FileTree.read_eq_ok.mpr ⟨l', hkept, ?_⟩
      rw [hother l' fun heq => hne (heq ▸ hkept), hfile]
  · have ht := (grown_of_write_error h).resolve_right hstop
    refine ⟨fun _ => ht.file?_eq, fun hs => absurd hs hstop, fun l _ => ht.file?_eq l, ?_⟩
    intro contents hread
    obtain ⟨l, hl, hfile⟩ := FileTree.read_eq_ok.mp hread
    exact FileTree.read_eq_ok.mpr ⟨l, ht.resolve hl, (ht.file?_eq l).trans hfile⟩

def blocked : World := { World.start [] [] fun _ => 0 with tree := ⟨[(["k"], .directory)]⟩ }

theorem write_blocked :
    ∃ e w', (default.write .specimen (some ⟨"k"⟩) (some "")).runIn blocked = (.error e, w') ∧
      (w'.tree.read [] ⟨"k.pub"⟩).toOption ≠ (blocked.tree.read [] ⟨"k.pub"⟩).toOption := by
  have hrun : ((default.write .specimen (some ⟨"k"⟩) (some "")).runIn blocked).1.toOption.isSome =
      false := by
    decide +kernel
  have hpublic : (((default.write .specimen (some ⟨"k"⟩) (some "")).runIn blocked).2.tree.read []
      ⟨"k.pub"⟩).toOption ≠ (blocked.tree.read [] ⟨"k.pub"⟩).toOption := by
    decide +kernel
  obtain ⟨e, w', hwrite⟩ := Action.runIn_eq_error hrun
  rw [hwrite] at hpublic
  exact ⟨e, w', hwrite, hpublic⟩

/-- The halves are not replaced as one: a write onto a directory fails after it has replaced the public
half. -/
theorem write_error_half_replaced :
    ¬ ∀ (c : Custodian) (k : KeyPair) (path : Path) (password : String) (w w' : World) (e : Failure),
      (c.write k (some path) (some password)).runIn w = (.error e, w') →
        w'.tree.read w.here path.publicKey = w.tree.read w.here path.publicKey ∧
          w'.tree.read w.here path = w.tree.read w.here path := by
  intro h
  obtain ⟨e, w', hrun, hpublic⟩ := write_blocked
  exact hpublic (congrArg Except.toOption (h _ _ _ _ _ _ _ hrun).1)

/-- The directory that the write was refused by is as it was. -/
theorem write_error_files_blocked :
    ∃ e t', Ends [] (fun _ => True) blocked.tree (default.write .specimen (some ⟨"k"⟩) (some "")).run t'
        (.error e) ∧
      ∀ l, t'.resolve [] ⟨"k"⟩ = .ok l → t'.file? l = blocked.tree.file? l := by
  obtain ⟨e, w', hrun, -⟩ := write_blocked
  have hends : Ends [] (fun _ => True) blocked.tree
      (default.write .specimen (some ⟨"k"⟩) (some "")).run _ _ :=
    ends_run (fun _ => trivial) _ blocked
  unfold Action.runIn at hrun
  rw [hrun] at hends
  exact ⟨e, w'.tree, hends, (write_error_files hends).2.2.1⟩

end KeyCustody.Custodian
