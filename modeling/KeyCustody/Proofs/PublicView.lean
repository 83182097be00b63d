import KeyCustody.Proofs.KeyPair
import KeyCustody.Proofs.RoundTrip
import KeyCustody.Proofs.Signing
import KeyCustody.Proofs.Stored
/-! # What the public sees of a key

Identifiers, metadata, logged halves, verification, the file of the public half and the prompts are made
of the public half of a key alone. For two keys that differ in their private halves they are the same,
whatever the passwords are. -/

namespace KeyCustody

variable {α β : Type}

namespace KeyPair

variable {k k' : KeyPair}

/-- Two key pairs that are the same except for their private halves. -/
structure SamePublic (k k' : KeyPair) : Prop where
  keytype : k'.keytype = k.keytype
  scheme : k'.scheme = k.scheme
  keyid : k'.keyid = k.keyid
  hashAlgorithms : k'.hashAlgorithms = k.hashAlgorithms
  publicHalf : k'.keyval.publicHalf = k.keyval.publicHalf

namespace SamePublic

theorem eq_with (h : SamePublic k k') :
    k' = { k with keyval := ⟨k.keyval.publicHalf, k'.keyval.privateHalf⟩ } := by
  obtain ⟨keytype', scheme', keyid', hashAlgorithms', publicHalf', privateHalf'⟩ := k'
  obtain ⟨rfl, rfl, rfl, rfl, rfl⟩ := h
  rfl

theorem metadata_eq (h : SamePublic k k') : k'.metadata = k.metadata := by
  rw [h.eq_with]
  rfl

theorem keyidWith_eq (h : SamePublic k k') (algorithm : HashAlgorithm) :
    k'.keyidWith algorithm = k.keyidWith algorithm := by
  rw [h.eq_with]
  rfl

theorem keyids_eq (h : SamePublic k k') : k'.keyids = k.keyids := by
  rw [h.eq_with]
  rfl

theorem publicOnly_eq (h : SamePublic k k') : k'.publicOnly = k.publicOnly := by
  rw [h.eq_with]
  rfl

theorem debug_eq (h : SamePublic k k') (hprivate : k.hasPrivate = true)
    (hprivate' : k'.hasPrivate = true) : k'.keyval.debug = k.keyval.debug := by
  rw [KeyVal.debug, KeyVal.debug, if_neg (bne_iff_ne.mp hprivate), if_neg (bne_iff_ne.mp hprivate'),
    h.publicHalf]

theorem verify_eq (h : SamePublic k k') (data : Bytes) (signature : Signature) :
    k'.verify data signature = k.verify data signature :=
  verify_congr h.keytype h.scheme h.publicHalf

theorem publicPayload_eq (h : SamePublic k k') :
    Custodian.publicPayload k' = Custodian.publicPayload k := by
  rw [Custodian.publicPayload, Custodian.publicPayload, h.keytype, h.publicHalf, h.metadata_eq]

end SamePublic

end KeyPair

/-! ## Prompts -/

/-- Two worlds with the same user: who has been shown the same prompts and will enter the same at the next
ones, in the same current directory. -/
structure World.SameUser (w v : World) : Prop where
  here : v.here = w.here
  answers : v.answers = w.answers
  prompts : v.prompts = w.prompts
  mismatches : v.mismatches = w.mismatches

namespace World.SameUser

variable {w v u : World}

theorem refl (w : World) : w.SameUser w := ⟨rfl, rfl, rfl, rfl⟩

theorem symm (h : w.SameUser v) : v.SameUser w :=
  ⟨h.here.symm, h.answers.symm, h.prompts.symm, h.mismatches.symm⟩

theorem trans (h : w.SameUser v) (h' : v.SameUser u) : w.SameUser u :=
  ⟨h'.here.trans h.here, h'.answers.trans h.answers, h'.prompts.trans h.prompts,
    h'.mismatches.trans h.mismatches⟩

end World.SameUser

namespace Action

/-- Actions that get all they know about a world from its user. -/
def AsksUser (a : Action α) : Prop :=
  ∀ w v : World, w.SameUser v → (a.runIn v).1 = (a.runIn w).1 ∧ (a.runIn w).2.SameUser (a.runIn v).2

/-- Actions that show nothing to the user and ask for nothing. -/
def Silent (a : Action α) : Prop := ∀ w : World, w.SameUser (a.runIn w).2

namespace AsksUser

theorem ofOutcome (r : Outcome α) : (Action.ofOutcome r).AsksUser := fun _ _ h => ⟨rfl, h⟩

theorem bind {a : Action α} {f : α → Action β} (ha : a.AsksUser) (hf : ∀ x, (f x).AsksUser) :
    (a >>= f).AsksUser := by
  intro w v h
  obtain ⟨hresult, hafter⟩ := ha w v h
  rw [runIn_bind, runIn_bind]
  cases hw : a.runIn w with
  | mk r w' =>
    cases hv : a.runIn v with
    | mk r' v' =>
      rw [hw, hv] at hresult hafter
      obtain rfl : r' = r := hresult
      cases r' with
      | error e => exact ⟨rfl, hafter⟩
      | ok x => exact hf x w' v' hafter

/-- The same action first, and then two that end in worlds with the same user. -/
theorem sameUser_bind {a : Action α} {f f' : α → Action β} (ha : a.AsksUser)
    (hf : ∀ x w v, w.SameUser v → ((f x).runIn w).2.SameUser ((f' x).runIn v).2) {w v : World}
    (h : w.SameUser v) : ((a >>= f).runIn w).2.SameUser ((a >>= f').runIn v).2 := by
  obtain ⟨hresult, hafter⟩ := ha w v h
  rw [runIn_bind, runIn_bind]
  cases hw : a.runIn w with
  | mk r w' =>
    cases hv : a.runIn v with
    | mk r' v' =>
      rw [hw, hv] at hresult hafter
      obtain rfl : r' = r := hresult
      cases r' with
      | error e => exact hafter
      | ok x => exact hf x w' v' hafter

theorem workingDirectory : Action.workingDirectory.AsksUser := by
  intro w v h
  have hrun : ∀ w : World, Action.workingDirectory.runIn w = (.ok (World.pathOf w.here), w) :=
    fun _ => rfl
  rw [hrun, hrun, h.here]
  exact ⟨rfl, h⟩

theorem noteMismatch : Action.noteMismatch.AsksUser := fun _ _ h =>
  ⟨rfl, h.here, h.answers, h.prompts, congrArg (· + 1) h.mismatches⟩

theorem prompt (text : String) : (Action.prompt text).AsksUser := by
  intro w v h
  have hprompts : v.prompts ++ [text] = w.prompts ++ [text] := by rw [h.prompts]
  rw [runIn_prompt, runIn_prompt, h.answers]
  cases w.answers with
  | nil => exact ⟨rfl, h.here, rfl, hprompts, h.mismatches⟩
  | cons a rest => exact ⟨rfl, h.here, rfl, hprompts, h.mismatches⟩

end AsksUser

theorem Silent.bind {a : Action α} {f : α → Action β} (ha : a.Silent) (hf : ∀ x, (f x).Silent) :
    (a >>= f).Silent := by
  intro w
  have hw := ha w
  rw [runIn_bind]
  cases hrun : a.runIn w with
  | mk r w' =>
    rw [hrun] at hw
    cases r with
    | error e => exact hw
    | ok x => exact hw.trans (hf x w')

end Action

theorem Atomic.replaceWith_silent (path : Path) (filling : Filling) :
    (Atomic.replaceWith path filling).Silent := by
  intro w
  obtain ⟨mid, g, t, hrun, -⟩ | ⟨e, t, hrun, -⟩ := Atomic.replaceWith_run path filling w
  · rw [hrun]
    exact ⟨rfl, rfl, rfl, rfl⟩
  · rw [hrun]
    exact ⟨rfl, rfl, rfl, rfl⟩

namespace Password

open KeyCustody.Action

theorem confirmed_asksUser (prompt : String) (attempts left : Nat) :
    (confirmed prompt attempts left).AsksUser := by
  induction left with
  | zero => exact .ofOutcome (.error (.passwordMismatch attempts))
  | succ left ih =>
    refine (AsksUser.prompt prompt).bind fun first => (AsksUser.prompt confirmPrompt).bind fun second => ?_
    split_ifs
    · exact .ofOutcome (.ok first)
    · exact AsksUser.noteMismatch.bind fun _ => ih

theorem acquire_asksUser (given : Option String) (prompt : String) (confirm : Bool) (attempts : Nat) :
    (acquire given prompt confirm attempts).AsksUser := by
  unfold acquire
  cases given with
  | some password => exact .ofOutcome (.ok password)
  | none =>
    cases confirm with
    | false => exact .prompt prompt
    | true => exact confirmed_asksUser prompt attempts attempts

end Password

namespace Custodian

open KeyCustody.Action

variable {c c' : Custodian} {k k' : KeyPair}

theorem destination_asksUser (k : KeyPair) (path : Option Path) : (destination k path).AsksUser := by
  cases path with
  | some path => exact (AsksUser.ofOutcome path.check).bind fun _ => .ofOutcome (.ok path)
  | none =>
    exact AsksUser.workingDirectory.bind fun directory => .ofOutcome (.ok (directory.join ⟨k.keyid⟩))

theorem privatePayload_silent (c : Custodian) (k : KeyPair) (password : String) :
    (c.privatePayload k password).Silent := by
  intro w
  obtain ⟨n, hn⟩ := c.privatePayload_world k password w
  rw [hn]
  exact ⟨rfl, rfl, rfl, rfl⟩

theorem store_silent (k : KeyPair) (path : Path) (payload : String) : (store k path payload).Silent :=
  (Atomic.replaceWith_silent _ _).bind fun _ =>
    (Atomic.replaceWith_silent _ _).bind fun _ w => .refl w

/-- Users cannot tell two writes apart by what they are shown. -/
theorem write_sameUser (h : k.SamePublic k') (hprivate : k.hasPrivate = true)
    (hprivate' : k'.hasPrivate = true) (c : Custodian) (path : Option Path) (given : Option String)
    {w v : World} (huser : w.SameUser v) :
    ((c.write k path given).runIn w).2.SameUser ((c.write k' path given).runIn v).2 := by
  have hdestination : destination k' path = destination k path := by
    rw [h.eq_with]
    rfl
  rw [write_eq hprivate, write_eq hprivate', hdestination, h.keytype]
  refine (destination_asksUser k path).sameUser_bind (fun path w v huser => ?_) huser
  refine (Password.acquire_asksUser _ _ _ _).sameUser_bind (fun password w v huser => ?_) huser
  have hsilent : ∀ k : KeyPair, (c.privatePayload k password >>= store k path).Silent := fun k =>
    (privatePayload_silent c k password).bind (store_silent k path)
  exact (hsilent k w).symm.trans (huser.trans (hsilent k' v))

/-! ## Files -/

/-- Where a key is written to in a world: at the path that is named, or in the current directory. -/
def pathIn (k : KeyPair) (path : Option Path) (w : World) : Path :=
  path.getD ((World.pathOf w.here).join ⟨k.keyid⟩)

/-- A write with a given password that succeeds leaves the public payload next to the path. -/
theorem public_file_of_write {path : Option Path} {written : Path} {password : String} {w w' : World}
    (h : (c.write k path (some password)).runIn w = (.ok written, w')) :
    written = pathIn k path w ∧
      w'.tree.read w'.here written.publicKey = .ok (Text.utf8 (publicPayload k)) := by
  have hrun : (c.privatePayload k password >>= store k (pathIn k path w)).runIn w = (.ok written, w') := by
    cases path with
    | none => exact write_here_ok h
    | some path =>
      obtain ⟨hprivate, hpath, -⟩ := write_ok h
      rwa [write_run hprivate hpath] at h
  obtain ⟨payload, w₁, g, -, hstored⟩ := stored_of_run hrun
  obtain ⟨rfl, -⟩ := stored_ok hrun
  exact ⟨rfl, hstored.publicHalf.read⟩

end Custodian

/-- Whatever is public of a key says nothing about its private half or its password. -/
theorem KeyPair.public_view {k k' : KeyPair} (h : k.SamePublic k') (hprivate : k.hasPrivate = true)
    (hprivate' : k'.hasPrivate = true) :
    (∀ algorithm, k'.keyidWith algorithm = k.keyidWith algorithm) ∧ k'.keyids = k.keyids ∧
      k'.publicOnly = k.publicOnly ∧ k'.metadata.document = k.metadata.document ∧
      k'.keyval.debug = k.keyval.debug ∧
      (∀ data signature, k'.verify data signature = k.verify data signature) ∧
      (∀ (c : Custodian) (path : Option Path) (password password' : String) (w v w' v' : World)
        (written written' : Path), v.here = w.here →
        (c.write k path (some password)).runIn w = (.ok written, w') →
        (c.write k' path (some password')).runIn v = (.ok written', v') →
        written' = written ∧ ∃ contents, w'.tree.read w'.here written.publicKey = .ok contents ∧
          v'.tree.read v'.here written'.publicKey = .ok contents) ∧
      ∀ (c : Custodian) (path : Option Path) (w v : World), w.SameUser v →
        ((c.write k path none).runIn w).2.SameUser ((c.write k' path none).runIn v).2 := by
  refine ⟨h.keyidWith_eq, h.keyids_eq, h.publicOnly_eq, ?_, h.debug_eq hprivate hprivate', h.verify_eq,
    ?_, ?_⟩
  · rw [h.metadata_eq]
  · intro c path password password' w v w' v' written written' hhere hwrite hwrite'
    obtain ⟨hwritten, hread⟩ := Custodian.public_file_of_write hwrite
    obtain ⟨hwritten', hread'⟩ := Custodian.public_file_of_write hwrite'
    refine ⟨?_, _, hread, ?_⟩
    · rw [hwritten, hwritten', Custodian.pathIn, Custodian.pathIn, hhere, h.keyid]
    · rw [hread', h.publicPayload_eq]
  · intro c path w v huser
    exact Custodian.write_sameUser h hprivate hprivate' c path none huser

/-- A key with the public half of the specimen and another private text. -/
def KeyPair.lookalike : KeyPair :=
  { specimen with keyval := ⟨specimen.keyval.publicHalf, "another scalar"⟩ }

theorem KeyPair.public_view_lookalike :
    lookalike.keyval ≠ specimen.keyval ∧ lookalike.keyids = specimen.keyids ∧
      ∃ w' v' contents,
        (Custodian.brisk.write specimen (some ⟨"k"⟩) (some "")).runIn (World.start [] [] fun _ => 0) =
          (.ok ⟨"k"⟩, w') ∧
        (Custodian.brisk.write lookalike (some ⟨"k"⟩) (some "secret")).runIn
          (World.start [] [] fun _ => 0) = (.ok ⟨"k"⟩, v') ∧
        w'.tree.read w'.here ⟨"k.pub"⟩ = .ok contents ∧ v'.tree.read v'.here ⟨"k.pub"⟩ = .ok contents ∧
        ((Custodian.brisk.write lookalike (some ⟨"k"⟩) none).runIn
            (World.start [] ["a", "a"] fun _ => 0)).2.prompts =
          ((Custodian.brisk.write specimen (some ⟨"k"⟩) none).runIn
            (World.start [] ["a", "a"] fun _ => 0)).2.prompts := by
  obtain ⟨-, hkeyids, -, -, -, -, hfiles, hprompts⟩ := public_view
    (⟨rfl, rfl, rfl, rfl, rfl⟩ : specimen.SamePublic lookalike) (by decide) (by decide)
  let start : World := World.start [] [] fun _ => 0
  have hrun : ((Custodian.brisk.write specimen (some ⟨"k"⟩) (some "")).runIn start).1.toOption.isSome =
      true := by
    decide +kernel
  have hrun' : ((Custodian.brisk.write lookalike (some ⟨"k"⟩) (some "secret")).runIn
      start).1.toOption.isSome = true := by
    decide +kernel
  obtain ⟨written, w', hwrite⟩ := Action.runIn_eq_ok hrun
  obtain ⟨written', v', hwrite'⟩ := Action.runIn_eq_ok hrun'
  obtain ⟨-, contents, hread, hread'⟩ := hfiles _ _ _ _ _ _ _ _ _ _ rfl hwrite hwrite'
  obtain ⟨rfl, -⟩ := Custodian.public_file_of_write hwrite
  obtain ⟨rfl, -⟩ := Custodian.public_file_of_write hwrite'
  exact ⟨by decide, hkeyids, w', v', contents, hwrite, hwrite', hread, hread',
    (hprompts Custodian.brisk (some ⟨"k"⟩) _ _ (.refl _)).prompts⟩

end KeyCustody
