import KeyCustody.Proofs.KeyPair
import KeyCustody.Proofs.ReplacementFrame
import KeyCustody.Proofs.RoundTrip
import KeyCustody.Proofs.Stored
/-! # The frame of a write

A write may be refused at any call, and whoever answers the prompts may enter anything. Whatever it comes
to, it has changed no file except the two that hold the halves of the key, which have complete payloads if
they are new, and it has made directories above these two at most. -/

namespace KeyCustody

open Program

variable {α β : Type} {here : Location} {fresh : String → Prop} {t t' t'' : FileTree}

namespace FileTree

variable {files : Path → Bytes → Prop} {above : Path → Prop}

/-- A later tree, in which files with certain contents have been put to certain paths and directories have
been made at certain paths. All other entries are as they were. -/
structure Frame (here : Location) (files : Path → Bytes → Prop) (above : Path → Prop)
    (t t' : FileTree) : Prop where
  changed : ∀ l, t'.file? l ≠ t.file? l →
    ∃ p contents, files p contents ∧ t'.Names here p l ∧ t'.file? l = some contents
  kept : ∀ l e, t.lookup l = some e →
    ∃ e', t'.lookup l = some e' ∧ (e' = .directory ↔ e = .directory)
  made : ∀ l, t.lookup l = none → t'.lookup l = some .directory → ∃ p, above p ∧ t'.Names here p l

namespace Frame

theorem directory_kept (h : Frame here files above t t') (l : Location)
    (hl : t.lookup l = some .directory) : t'.lookup l = some .directory := by
  obtain ⟨e, he, hkind⟩ := h.kept l _ hl
  rw [he, hkind.mpr rfl]

theorem of_grownBy {S : Path → Prop} (h : GrownBy here S t t') (hS : ∀ p, S p → above p) :
    Frame here files above t t' where
  changed l hl := absurd (h.grown.file?_eq l) hl
  kept l e he := ⟨e, h.grown.kept l e he, Iff.rfl⟩
  made := (h.mono hS).named

theorem refl (t : FileTree) : Frame here files above t t :=
  of_grownBy (.refl t) fun _ => id

theorem of_put {p : Path} {contents : Bytes} {g : Target} (h : Put t here p contents g t')
    (hfile : files p contents) : Frame here files above t t' where
  changed l hl := by
    obtain rfl : l = g.location := by
      by_contra hne
      exact hl (h.file?_other hne)
    exact ⟨p, contents, hfile, h.names, h.file?_location⟩
  kept l e he := by
    rw [h.lookup]
    split_ifs with heq
    · refine ⟨_, rfl, iff_of_false (by rintro ⟨⟩) ?_⟩
      rintro rfl
      exact h.free (heq ▸ he)
    · exact ⟨e, he, Iff.rfl⟩
  made l hnone hl := by
    rw [h.lookup] at hl
    split_ifs at hl
    · cases hl
    · rw [hnone] at hl
      cases hl

theorem trans (h : Frame here files above t t') (h' : Frame here files above t' t'') :
    Frame here files above t t'' where
  changed l hl := by
    by_cases hlater : t''.file? l = t'.file? l
    · rw [hlater] at hl
      obtain ⟨p, contents, hfile, hnames, hcontents⟩ := h.changed l hl
      exact ⟨p, contents, hfile, hnames.kept h'.directory_kept, hlater.trans hcontents⟩
    · exact h'.changed l hlater
  kept l e he := by
    obtain ⟨e', he', hkind⟩ := h.kept l e he
    obtain ⟨e'', he'', hkind'⟩ := h'.kept l e' he'
    exact ⟨e'', he'', hkind'.trans hkind⟩
  made l hnone hl := by
    cases hmid : t'.lookup l with
    | none => exact h'.made l hmid hl
    | some e =>
      obtain ⟨e', he', hkind⟩ := h'.kept l e hmid
      rw [hl] at he'
      obtain rfl := hkind.mp (Option.some.inj he').symm
      obtain ⟨p, hp, hnames⟩ := h.made l hnone hmid
      exact ⟨p, hp, hnames.kept h'.directory_kept⟩

end Frame

end FileTree

namespace Action

/-! ## Actions that leave the files alone -/

/-- An action that has ended has failed at its first step, or has ended after it. -/
theorem ends_bind {a : Action α} {f : α → Action β} {r : Outcome β}
    (h : Ends here fresh t (a >>= f).run t' r) :
    (∃ x mid, Ends here fresh t a.run mid (.ok x) ∧ Ends here fresh mid (f x).run t' r) ∨
      ∃ e, Ends here fresh t a.run t' (.error e) ∧ r = .error e := by
  obtain ⟨mid, result, hfirst, hrest⟩ := Ends.of_bind h
  cases result with
  | ok x => exact .inl ⟨x, mid, hfirst, hrest⟩
  | error e =>
    obtain ⟨rfl, rfl⟩ := ends_done hrest
    exact .inr ⟨e, hfirst, rfl⟩

/-- However it ends, the file tree is as it was. -/
def KeepsTree (a : Action α) : Prop :=
  ∀ (here : Location) (fresh : String → Prop) (t t' : FileTree) (r : Outcome α),
    Ends here fresh t a.run t' r → t' = t

namespace KeepsTree

theorem ofOutcome (r : Outcome α) : (Action.ofOutcome r).KeepsTree := fun _ _ _ _ _ h =>
  (ends_done h).2

/-- What follows finds the tree as it was, or nothing follows. -/
theorem ends_bind {a : Action α} {f : α → Action β} {r : Outcome β} (ha : a.KeepsTree)
    (h : Ends here fresh t (a >>= f).run t' r) :
    (∃ x, Ends here fresh t a.run t (.ok x) ∧ Ends here fresh t (f x).run t' r) ∨
      t' = t ∧ ∃ e, r = .error e := by
  obtain ⟨x, mid, hfirst, hrest⟩ | ⟨e, hfirst, rfl⟩ := Action.ends_bind h
  · obtain rfl := ha _ _ _ _ _ hfirst
    exact .inl ⟨x, hfirst, hrest⟩
  · exact .inr ⟨ha _ _ _ _ _ hfirst, e, rfl⟩

theorem bind {a : Action α} {f : α → Action β} (ha : a.KeepsTree) (hf : ∀ x, (f x).KeepsTree) :
    (a >>= f).KeepsTree := by
  intro here fresh t t' r h
  obtain ⟨x, -, hrest⟩ | ⟨rfl, -⟩ := ha.ends_bind h
  · exact hf x _ _ _ _ _ hrest
  · rfl

theorem workingDirectory : Action.workingDirectory.KeepsTree := by
  intro here fresh t t' r h
  obtain _ | ⟨hstep, hend⟩ := h
  cases hstep
  exact (ends_done hend).2

theorem prompt (text : String) : (Action.prompt text).KeepsTree := by
  intro here fresh t t' r h
  obtain _ | ⟨hstep, hend⟩ := h
  cases hstep
  exact (ends_done hend).2

theorem noteMismatch : Action.noteMismatch.KeepsTree := by
  intro here fresh t t' r h
  obtain _ | ⟨hstep, hend⟩ := h
  cases hstep
  exact (ends_done hend).2

end KeepsTree

end Action

namespace Password

open KeyCustody.Action

theorem confirmed_keepsTree (prompt : String) (attempts left : Nat) :
    (confirmed prompt attempts left).KeepsTree := by
  induction left with
  | zero => exact .ofOutcome (.error (.passwordMismatch attempts))
  | succ left ih =>
    refine (KeepsTree.prompt prompt).bind fun first => (KeepsTree.prompt confirmPrompt).bind fun _ => ?_
    split_ifs
    · exact .ofOutcome (.ok first)
    · exact KeepsTree.noteMismatch.bind fun _ => ih

theorem acquire_keepsTree (given : Option String) (prompt : String) (attempts : Nat) :
    (acquire given prompt true attempts).KeepsTree := by
  cases given with
  | some password => exact .ofOutcome (.ok password)
  | none => exact confirmed_keepsTree prompt attempts attempts

end Password

/-- Programs that take nothing but random bytes from the host, and can come to certain results only. -/
inductive Program.Draws (R : α → Prop) : Program α → Prop
  | done {a : α} (h : R a) : Draws R (.done a)
  | random {count : Nat} {next : Option Bytes → Program α}
      (h : ∀ r, (∀ bytes, r = some bytes → bytes.length = count) → Draws R (next r)) :
      Draws R (.random count next)

theorem Program.Draws.ends {R : α → Prop} {p : Program α} {a : α} (h : Draws R p)
    (hends : Ends here fresh t p t' a) : t' = t ∧ R a := by
  induction h with
  | done h =>
    obtain ⟨rfl, rfl⟩ := ends_done hends
    exact ⟨rfl, h⟩
  | random _ ih =>
    obtain _ | ⟨hstep, hrest⟩ := hends
    cases hstep with
    | random hr => exact ih _ hr hrest

/-- A program that takes nothing but random bytes ends in any tree as it does in any world. -/
theorem Program.Draws.ends_run {R : α → Prop} {p : Program α} (h : Draws R p) (w : World) :
    Ends here fresh t p t (p.run w).1 := by
  induction h generalizing w with
  | done => exact .done
  | @random count _ _ ih =>
    exact .turn (.random (w.length_of_draw count)) (ih _ (w.length_of_draw count) _)

namespace World

def supplying (bytes : Bytes) (drawn : Nat) : World :=
  { start [] [] fun i => bytes.getD i 0 with drawn := drawn }

theorem draw_supplying {bytes : Bytes} {drawn count : Nat} (h : drawn + count ≤ bytes.length) :
    (supplying bytes drawn).draw count = (bytes.drop drawn).take count := by
  apply List.ext_getElem
  · simp [draw]
    omega
  · intro i hi _
    simp only [draw, List.length_map, List.length_range] at hi
    simp [draw, supplying, start, List.getElem?_eq_getElem (show drawn + i < bytes.length by omega)]

end World

namespace Custodian

open KeyCustody.Action

variable {c : Custodian} {k : KeyPair} {password payload : String} {path : Path}

/-! ## The payload -/

/-- A text that a custodian makes of a private half, with some random bytes. -/
def Prepares (c : Custodian) (k : KeyPair) (password payload : String) : Prop :=
  ∃ w w', (c.privatePayload k password).runIn w = (.ok payload, w')

/-- The action that seals something under a random salt and initial value. -/
def sealing (f : Bytes → Bytes → Outcome α) : Action α := do
  let salt ← Action.random 16
  let iv ← Action.random 16
  Action.ofOutcome (f salt iv)

theorem privatePayload_eq_rsa (hkind : k.keytype = .rsa) (c : Custodian) (password : String) :
    c.privatePayload k password =
      if password = "" then pure k.keyval.privateHalf
      else Action.ofOutcome (Rsa.privateInfo k.keyval.privateHalf) >>= fun info =>
        sealing (Rsa.encryptedDocument info password c.settings.iterations.toNat) := by
  rw [privatePayload, hkind]
  rfl

theorem privatePayload_eq_curve (hkind : k.keytype ≠ .rsa) (c : Custodian) (password : String) :
    c.privatePayload k password =
      if password = "" then pure k.document
      else sealing (Envelope.lockKey k password c.settings.iterations) := by
  unfold privatePayload
  split
  · exact absurd ‹_› hkind
  · rfl

/-- Whatever random bytes a host may give, a world gives them too. -/
theorem sealing_runIn (f : Bytes → Bytes → Outcome α) {salt iv : Bytes} (hsalt : salt.length = 16)
    (hiv : iv.length = 16) : ∃ w w', (sealing f).runIn w = (f salt iv, w') := by
  have hfirst : (World.supplying (salt ++ iv) 0).draw 16 = salt := by
    rw [World.draw_supplying (by simp [hsalt]), List.drop_zero, List.take_left' hsalt]
  have hsecond : (World.supplying (salt ++ iv) 16).draw 16 = iv := by
    rw [World.draw_supplying (by simp [hsalt, hiv]), List.drop_left' hsalt,
      List.take_of_length_le (Nat.le_of_eq hiv)]
  have hrun : (sealing f).runIn (World.supplying (salt ++ iv) 0) =
      (f ((World.supplying (salt ++ iv) 0).draw 16) ((World.supplying (salt ++ iv) 16).draw 16),
        World.supplying (salt ++ iv) 32) := rfl
  rw [hfirst, hsecond] at hrun
  exact ⟨_, _, hrun⟩

theorem draws_sealing (f : Bytes → Bytes → Outcome α) :
    Draws (fun r => ∀ x, r = .ok x → ∃ w w', (sealing f).runIn w = (.ok x, w')) (sealing f).run := by
  refine .random fun r hsalt => ?_
  cases r with
  | none => exact .done (by rintro _ ⟨⟩)
  | some salt =>
    refine .random fun r hiv => ?_
    cases r with
    | none => exact .done (by rintro _ ⟨⟩)
    | some iv =>
      refine .done fun x hx => ?_
      obtain ⟨w, w', hrun⟩ := sealing_runIn f (hsalt salt rfl) (hiv iv rfl)
      exact ⟨w, w', hrun.trans (congrArg (·, w') hx)⟩

/-- Making the payload takes nothing but random bytes, and ends with a payload that the custodian prepares. -/
theorem draws_privatePayload (c : Custodian) (k : KeyPair) (password : String) :
    Draws (fun r => ∀ payload, r = .ok payload → c.Prepares k password payload)
      (c.privatePayload k password).run := by
  have hplain : ∀ text : String, Draws (fun r => ∀ payload, r = .ok payload →
      ∃ w w', (pure text : Action String).runIn w = (.ok payload, w')) (pure text : Action String).run := by
    intro text
    refine .done ?_
    rintro _ ⟨⟩
    exact ⟨World.supplying [] 0, _, runIn_pure text _⟩
  unfold Prepares
  by_cases hkind : k.keytype = .rsa
  · rw [privatePayload_eq_rsa hkind]
    split_ifs
    · exact hplain _
    · cases Rsa.privateInfo k.keyval.privateHalf with
      | error e => exact .done (by rintro _ ⟨⟩)
      | ok info => exact draws_sealing _
  · rw [privatePayload_eq_curve hkind]
    split_ifs
    · exact hplain _
    · exact draws_sealing _

theorem privatePayload_keepsTree (c : Custodian) (k : KeyPair) (password : String) :
    (c.privatePayload k password).KeepsTree := fun _ _ _ _ _ h =>
  ((draws_privatePayload c k password).ends h).1

/-! ## The write -/

theorem destination_keepsTree (k : KeyPair) (path : Option Path) : (destination k path).KeepsTree := by
  cases path with
  | some path => exact (KeepsTree.ofOutcome path.check).bind fun _ => .ofOutcome (.ok path)
  | none =>
    exact KeepsTree.workingDirectory.bind fun directory => .ofOutcome (.ok (directory.join ⟨k.keyid⟩))

/-- The path that a write without an error of its own goes to. -/
theorem destination_of_ends {path : Option Path} {destined : Path}
    (h : Ends here fresh t (destination k path).run t' (.ok destined)) :
    destined = path.getD ((World.pathOf here).join ⟨k.keyid⟩) := by
  cases path with
  | some path =>
    obtain ⟨u, mid, -, hrest⟩ | ⟨e, -, he⟩ := ends_bind h
    · exact Except.ok.inj (ends_done hrest).1
    · cases he
  | none =>
    obtain ⟨directory, mid, hdirectory, hrest⟩ | ⟨e, -, he⟩ := ends_bind h
    · obtain rfl := Except.ok.inj (ends_done hrest).1
      obtain _ | ⟨hstep, hend⟩ := hdirectory
      cases hstep with
      | workingDirectory hr =>
        cases hr with
        | given => rw [Except.ok.inj (ends_done hend).1]; rfl
        | refused fault => cases (ends_done hend).1
    · cases he

theorem acquire_of_ends {password entered prompt : String} {attempts : Nat}
    (h : Ends here fresh t (Password.acquire (some password) prompt true attempts).run t' (.ok entered)) :
    entered = password :=
  Except.ok.inj (ends_done h).1

/-- The directories above the paths of both halves. -/
def AroundHalves (path p : Path) : Prop := Atomic.Above path p ∨ Atomic.Above path.publicKey p

/-- A replacement at one of the paths. -/
theorem frame_replace {files : Path → Bytes → Prop} {above : Path → Prop} {p : Path} {contents : Bytes}
    {r : Outcome Unit} (h : Ends here fresh t (Atomic.replace p contents).run t' r)
    (hfile : files p contents) (habove : ∀ q, Atomic.Above p q → above q) :
    FileTree.Frame here files above t t' ∧
      (r = .ok () → ∃ mid g, t.Grown mid ∧ mid.Put here p contents g t') := by
  obtain ⟨-, mid, g, hgrown, hput⟩ | ⟨⟨e, rfl⟩, hgrown⟩ := Atomic.ends_replace h
  · exact ⟨(FileTree.Frame.of_grownBy hgrown habove).trans (.of_put hput hfile),
      fun _ => ⟨mid, g, hgrown.grown, hput⟩⟩
  · exact ⟨.of_grownBy hgrown habove, by rintro ⟨⟩⟩

/-- The two halves are replaced one after the other. -/
theorem ends_store {files : Path → Bytes → Prop} {r : Outcome Path}
    (h : Ends here fresh t (store k path payload).run t' r)
    (hpublic : files path.publicKey (Text.utf8 (publicPayload k)))
    (hprivate : files path (Text.utf8 payload)) :
    FileTree.Frame here files (AroundHalves path) t t' ∧
      ∀ written, r = .ok written → written = path ∧
        t'.read here path.publicKey = .ok (Text.utf8 (publicPayload k)) ∧
        t'.read here path = .ok (Text.utf8 payload) := by
  have haroundPublic : ∀ p, Atomic.Above path.publicKey p → AroundHalves path p := fun _ => .inr
  have haround : ∀ p, Atomic.Above path p → AroundHalves path p := fun _ => .inl
  obtain ⟨⟨⟩, t₁, hfirst, hrest⟩ | ⟨e, hfirst, rfl⟩ := ends_bind h
  · obtain ⟨hframe, hput⟩ := frame_replace hfirst hpublic haroundPublic
    obtain ⟨mid, g', -, hput'⟩ := hput rfl
    obtain ⟨⟨⟩, t₂, hsecond, hrest⟩ | ⟨e, hsecond, rfl⟩ := ends_bind hrest
    · obtain ⟨hframe', hput⟩ := frame_replace hsecond hprivate haround
      obtain ⟨mid', g, hgrown, hput⟩ := hput rfl
      obtain ⟨rfl, rfl⟩ := ends_done hrest
      refine ⟨hframe.trans hframe', ?_⟩
      rintro _ ⟨⟩
      exact ⟨rfl, (hput'.publicKey_holds hgrown hput).read, hput.read⟩
    · obtain ⟨hframe', -⟩ := frame_replace hsecond hprivate haround
      exact ⟨hframe.trans hframe', by rintro _ ⟨⟩⟩
  · obtain ⟨hframe, -⟩ := frame_replace hfirst hpublic haroundPublic
    exact ⟨hframe, by rintro _ ⟨⟩⟩

/-- What a write puts to which of the two paths. -/
def Delivers (c : Custodian) (k : KeyPair) (path : Path) (given : Option String) (p : Path)
    (contents : Bytes) : Prop :=
  (p = path.publicKey ∧ contents = Text.utf8 (publicPayload k)) ∨
    (p = path ∧ ∃ password payload, (∀ g, given = some g → password = g) ∧
      c.Prepares k password payload ∧ contents = Text.utf8 payload)

/-- However a write ends, the only files that are new or changed are the ones that it delivers, every entry
is still there, and the only new directories lie above the two paths. If it succeeds, both paths lead to
what it delivers. -/
theorem write_frame {path : Option Path} {given : Option String} {r : Outcome Path}
    (h : Ends here fresh t (c.write k path given).run t' r) :
    let destined := path.getD ((World.pathOf here).join ⟨k.keyid⟩)
    FileTree.Frame here (c.Delivers k destined given) (AroundHalves destined) t t' ∧
      ∀ written, r = .ok written → written = destined ∧
        t'.read here destined.publicKey = .ok (Text.utf8 (publicPayload k)) ∧
        ∃ password payload, (∀ g, given = some g → password = g) ∧ c.Prepares k password payload ∧
          t'.read here destined = .ok (Text.utf8 payload) := by
  intro destined
  cases hk : k.hasPrivate with
  | false =>
    rw [write_eq_throw hk] at h
    obtain ⟨rfl, rfl⟩ := ends_done h
    exact ⟨.refl _, by rintro _ ⟨⟩⟩
  | true =>
    rw [write_eq hk] at h
    obtain ⟨found, hdestination, hrest⟩ | ⟨rfl, e, rfl⟩ := (destination_keepsTree k path).ends_bind h
    · obtain rfl : found = destined := destination_of_ends hdestination
      obtain ⟨password, hacquire, hsealed⟩ | ⟨rfl, e, rfl⟩ :=
        (Password.acquire_keepsTree given _ _).ends_bind hrest
      · have hgiven : ∀ g, given = some g → password = g := by
          rintro g rfl
          exact acquire_of_ends hacquire
        obtain ⟨payload, hpayload, hstore⟩ | ⟨rfl, e, rfl⟩ :=
          (privatePayload_keepsTree c k password).ends_bind hsealed
        · have hprepares : c.Prepares k password payload :=
            ((draws_privatePayload c k password).ends hpayload).2 payload rfl
          have hpublic : c.Delivers k destined given destined.publicKey (Text.utf8 (publicPayload k)) :=
            .inl ⟨rfl, rfl⟩
          have hprivate : c.Delivers k destined given destined (Text.utf8 payload) :=
            .inr ⟨rfl, password, payload, hgiven, hprepares, rfl⟩
          obtain ⟨hframe, hreads⟩ := ends_store hstore hpublic hprivate
          refine ⟨hframe, fun written hok => ?_⟩
          obtain ⟨rfl, hpublic, hprivate⟩ := hreads written hok
          exact ⟨rfl, hpublic, password, payload, hgiven, hprepares, hprivate⟩
        · exact ⟨.refl _, by rintro _ ⟨⟩⟩
      · exact ⟨.refl _, by rintro _ ⟨⟩⟩
    · exact ⟨.refl _, by rintro _ ⟨⟩⟩

theorem write_frame_nested :
    ∃ t' payload, Ends [] (fun _ => True) FileTree.empty
        (brisk.write .specimen (some ⟨"a/k"⟩) (some "secret")).run t' (.ok ⟨"a/k"⟩) ∧
      FileTree.Frame [] (brisk.Delivers .specimen ⟨"a/k"⟩ (some "secret")) (AroundHalves ⟨"a/k"⟩)
        FileTree.empty t' ∧
      t'.read [] ⟨"a/k.pub"⟩ = .ok (Text.utf8 (publicPayload .specimen)) ∧
      brisk.Prepares .specimen "secret" payload ∧ t'.read [] ⟨"a/k"⟩ = .ok (Text.utf8 payload) := by
  have hrun : ((brisk.write .specimen (some ⟨"a/k"⟩) (some "secret")).runIn
      (World.start [] [] fun _ => 0)).1.toOption = some ⟨"a/k"⟩ := by
    decide +kernel
  have hends : Ends [] (fun _ => True) FileTree.empty
      (brisk.write .specimen (some ⟨"a/k"⟩) (some "secret")).run _ _ :=
    ends_run (fun _ => trivial) _ (World.start [] [] fun _ => 0)
  obtain ⟨written, w', hwrite⟩ := Action.runIn_eq_ok (Option.isSome_of_eq_some hrun)
  rw [hwrite] at hrun
  obtain rfl : written = ⟨"a/k"⟩ := Option.some.inj hrun
  unfold Action.runIn at hwrite
  rw [hwrite] at hends
  obtain ⟨hframe, hreads⟩ := write_frame hends
  obtain ⟨-, hpublic, password, payload, hgiven, hprepares, hprivate⟩ := hreads _ rfl
  obtain rfl := hgiven _ rfl
  exact ⟨w'.tree, payload, hends, hframe, hpublic, hprepares, hprivate⟩

end Custodian

end KeyCustody
