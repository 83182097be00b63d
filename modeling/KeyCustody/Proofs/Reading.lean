import KeyCustody.Custodian
import KeyCustody.Proofs.Run
import KeyCustody.Proofs.Utf8
/-! # Reading a key

A private key is read in three steps: the path is checked, a password is given or asked for, and the text
of the file is taken as a key under it. The first two change no file, and settings play no part in them. A
public key is read without the second step. -/

namespace KeyCustody.Custodian

variable {path : Path} {text : String} {contents : Bytes} {w : World}

/-- The contents of a file as text. Contents that are none count as a failure of the host. -/
def textOf (contents : Bytes) : Outcome String :=
  .ofOption (Action.failureOf IoKind.notText.fault) (Text.ofUtf8? contents)

theorem textOf_utf8 (text : String) : textOf (Text.utf8 text) = .ok text := by
  rw [textOf, Text.ofUtf8?_utf8]
  rfl

theorem readText_run (hcontents : w.tree.read w.here path = .ok contents) :
    (Action.readText path).runIn w = (textOf contents, w) := by
  have hanswer : (World.answer (.ok contents : Except IoKind Bytes)).mapError Action.failureOf =
      .ok contents := rfl
  unfold Action.readText textOf
  rw [Action.runIn_bind, Action.runIn_readBytes, hcontents, hanswer, Action.andThen_ok]
  cases Text.ofUtf8? contents <;> rfl

theorem readText_utf8 (hcontents : w.tree.read w.here path = .ok (Text.utf8 text)) :
    (Action.readText path).runIn w = (.ok text, w) := by
  rw [readText_run hcontents, textOf_utf8]

/-- Reading a public key from a file that is there comes to what its contents are, as text, as one. -/
theorem loadPublic_run (hcontents : w.tree.read w.here path = .ok contents) (expected : KeyType)
    (scheme : Scheme) :
    (loadPublic path expected scheme).runIn w =
      (path.check >>= fun _ => textOf contents >>= fun text => publicKeyOf text expected scheme, w) := by
  rw [loadPublic, Action.runIn_bind, Action.runIn_ofOutcome]
  cases path.check with
  | error e => rfl
  | ok _ =>
    rw [Action.andThen_ok, Action.runIn_bind, readText_run hcontents]
    cases textOf contents <;> rfl

theorem readPublic_utf8 (hpath : path.check = .ok ())
    (hcontents : w.tree.read w.here path = .ok (Text.utf8 text)) (expected : KeyType) :
    (readPublic path expected).runIn w =
      (publicKeyOf text expected expected.defaultScheme, w) := by
  rw [readPublic, loadPublic_run hcontents, hpath, textOf_utf8]
  rfl

/-- A password for reading is given or asked for once. -/
theorem readPrivate_run (c : Custodian) (hpath : path.check = .ok ()) (expected : KeyType)
    (given : Option String) (w : World) :
    (c.readPrivate path expected given).runIn w =
      ((given.elim (Action.prompt (Password.importPrompt expected path)) pure) >>= fun password =>
        Action.readText path >>= fun text =>
          Action.ofOutcome (c.privateKeyOf text expected password expected.defaultScheme)).runIn w := by
  have hacquire : ∀ attempts, Password.acquire given (Password.importPrompt expected path) false
      attempts = given.elim (Action.prompt (Password.importPrompt expected path)) pure := by
    intro attempts
    cases given <;> rfl
  have hscheme : checkScheme .rsa KeyType.rsa.defaultScheme = .ok () := rfl
  unfold readPrivate loadPrivate
  simp only [hacquire]
  by_cases hkind : expected = .rsa
  · simp only [Action.runIn_bind, Action.runIn_ofOutcome, Action.andThen_ok, hpath, hkind, if_true,
      hscheme]
  · simp only [Action.runIn_bind, Action.runIn_ofOutcome, Action.andThen_ok, hpath, if_neg hkind]

theorem readPrivate_given (c : Custodian) (hpath : path.check = .ok ())
    (htext : (Action.readText path).runIn w = (.ok text, w)) (expected : KeyType)
    (password : String) :
    (c.readPrivate path expected (some password)).runIn w =
      (c.privateKeyOf text expected password expected.defaultScheme, w) := by
  rw [c.readPrivate_run hpath, Option.elim_some, Action.runIn_bind, Action.runIn_pure,
    Action.andThen_ok, Action.runIn_bind, htext, Action.andThen_ok, Action.runIn_ofOutcome]

/-- Reading comes to what the text of the file is as a key, unless it is refused before. Settings play
no part in which of the two it is. -/
theorem readPrivate_text (hcontents : w.tree.read w.here path = .ok contents)
    (htext : Text.ofUtf8? contents = some text) (expected : KeyType) (given : Option String) :
    (∃ e w', ∀ c : Custodian, (c.readPrivate path expected given).runIn w = (.error e, w')) ∨
      ∃ password w', ∀ c : Custodian, (c.readPrivate path expected given).runIn w =
        (c.privateKeyOf text expected password expected.defaultScheme, w') := by
  have hread : ∀ answers prompts, (Action.readText path).runIn
      { w with answers := answers, prompts := prompts } =
        (.ok text, { w with answers := answers, prompts := prompts }) := fun _ _ =>
    Action.runIn_readText.mpr ⟨⟨_, hcontents, htext⟩, rfl⟩
  cases hpath : path.check with
  | error e =>
    refine .inl ⟨e, w, fun c => ?_⟩
    unfold readPrivate loadPrivate
    simp only [Action.runIn_bind, Action.runIn_ofOutcome, Action.andThen_error, hpath]
  | ok u =>
    cases given with
    | some password =>
      exact .inr ⟨password, w, fun c => c.readPrivate_given hpath (hread w.answers w.prompts) _ _⟩
    | none =>
      cases hanswers : w.answers with
      | nil =>
        refine .inl ⟨Action.failureOf World.noAnswer,
          { w with prompts := w.prompts ++ [Password.importPrompt expected path] }, fun c => ?_⟩
        rw [c.readPrivate_run hpath, Option.elim_none, Action.runIn_bind, Action.runIn_prompt,
          hanswers, Action.andThen_error]
      | cons a rest =>
        refine .inr ⟨a, { w with
          prompts := w.prompts ++ [Password.importPrompt expected path]
          answers := rest }, fun c => ?_⟩
        rw [c.readPrivate_run hpath, Option.elim_none, Action.runIn_bind, Action.runIn_prompt,
          hanswers, Action.andThen_ok, Action.runIn_bind, hread rest, Action.andThen_ok,
          Action.runIn_ofOutcome]

/-! ## Attempts -/

/-- An occasion for reading a private key: a world, a path in it, and a password unless it is to be
entered. -/
structure Attempt where
  world : World
  path : Path
  given : Option String

namespace Attempt

def outcome (a : Attempt) (c : Custodian) (expected : KeyType) : Outcome KeyPair :=
  ((c.readPrivate a.path expected a.given).runIn a.world).1

/-- The file at the path holds some contents, and they are read under a password. -/
structure Under (a : Attempt) (contents : Bytes) (password : String) : Prop where
  path_ok : a.path.check = .ok ()
  contents_eq : a.world.tree.read a.world.here a.path = .ok contents
  password_eq : a.given.or a.world.answers.head? = some password

variable {a : Attempt} {c : Custodian} {contents : Bytes} {expected : KeyType} {k : KeyPair}
  {password : String}

theorem outcome_of_run {x : Outcome KeyPair} {w : World}
    (h : (c.readPrivate a.path expected a.given).runIn a.world = (x, w)) : a.outcome c expected = x :=
  congrArg Prod.fst h

theorem Under.run (h : a.Under contents password) (c : Custodian) (expected : KeyType) :
    ∃ w, w.tree.read w.here a.path = .ok contents ∧
      a.outcome c expected = ((Action.readText a.path >>= fun text => Action.ofOutcome
        (c.privateKeyOf text expected password expected.defaultScheme)).runIn w).1 := by
  obtain ⟨w, path, given⟩ := a
  obtain ⟨hpath, hcontents, hpassword⟩ := h
  unfold outcome
  simp only at hpath hcontents hpassword ⊢
  rw [c.readPrivate_run hpath, Action.runIn_bind]
  cases given with
  | some password' =>
    cases hpassword
    exact ⟨w, hcontents, rfl⟩
  | none =>
    obtain ⟨rest, hanswers⟩ := List.head?_eq_some_iff.mp hpassword
    rw [Option.elim_none, Action.runIn_prompt, hanswers]
    exact ⟨{ w with
      prompts := w.prompts ++ [Password.importPrompt expected path]
      answers := rest }, hcontents, rfl⟩

theorem Under.outcome_eq (h : a.Under contents password) (htext : Text.ofUtf8? contents = some text)
    (c : Custodian) (expected : KeyType) :
    a.outcome c expected = c.privateKeyOf text expected password expected.defaultScheme := by
  obtain ⟨w, hcontents, hrun⟩ := h.run c expected
  have hread : (Action.readText a.path).runIn w = (.ok text, w) :=
    Action.runIn_readText.mpr ⟨⟨_, hcontents, htext⟩, rfl⟩
  rw [hrun, Action.runIn_bind, hread]
  rfl

theorem Under.exists_text (h : a.Under contents password) (hread : a.outcome c expected = .ok k) :
    ∃ text, Text.ofUtf8? contents = some text ∧
      c.privateKeyOf text expected password expected.defaultScheme = .ok k := by
  obtain ⟨w, hcontents, hrun⟩ := h.run c expected
  rw [hread] at hrun
  obtain ⟨text, w₁, htext, hkey⟩ := Action.runIn_bind_ok (Prod.ext hrun.symm rfl)
  obtain ⟨⟨bytes, hbytes, htext⟩, rfl⟩ := Action.runIn_readText.mp htext
  rw [hcontents] at hbytes
  cases hbytes
  rw [Action.runIn_ofOutcome] at hkey
  exact ⟨text, htext, (Prod.mk.inj hkey).1⟩

end Attempt

end KeyCustody.Custodian
