import KeyCustody.Proofs.ContentFailures
import KeyCustody.Proofs.KindMismatch
/-! # Reports of a key of another kind

A file that holds a key of another kind than the expected one is refused with both kinds in the report. The
kinds differ, except where a private RSA key is to be read from a document that names its kind: RSA keys stand
in PEM documents, and such a document is refused before the kind that it names is looked at. -/

namespace KeyCustody

variable {e : Failure} {expected : KeyType} {path : Path} {w w' : World}

/-! ## The reports -/

theorem Failure.of_code_unexpectedKeyType (h : e.report.code = ReportCode.unexpectedKeyType.number) :
    (∃ text, e = .unknownKeyType text) ∨ ∃ expected found, e = .unexpectedKeyType expected found := by
  cases e with
  | unknownKeyType text => exact .inl ⟨text, rfl⟩
  | unexpectedKeyType expected found => exact .inr ⟨expected, found, rfl⟩
  | settings fault => cases fault <;> cases h
  | rsaPem half fault => cases half <;> cases h
  | _ => cases h

theorem Failure.Fits.unexpectedKeyType (h : e.Fits expected)
    (hcode : e.report.code = ReportCode.unexpectedKeyType.number) :
    ∃ found, e = .unexpectedKeyType expected found ∧ found ≠ expected := by
  rcases of_code_unexpectedKeyType hcode with ⟨text, rfl⟩ | ⟨named, found, rfl⟩
  · exact absurd h id
  · obtain ⟨rfl, hfound⟩ := h
    exact ⟨found, rfl, hfound⟩

/-- A failure that fits whatever is expected has nothing to do with the kind. -/
theorem Failure.code_ne_of_fits (h : ∀ expected, e.Fits expected) :
    e.report.code ≠ ReportCode.unexpectedKeyType.number := by
  intro hcode
  obtain ⟨found, rfl, -⟩ := (h .rsa).unexpectedKeyType hcode
  cases (h .ed25519).1

/-! ## What is done before the text is read as a key -/

namespace Action

theorem code_ne_of_ofOutcome {α : Type} {x : Outcome α} (hx : ∀ expected, x.FailsFor expected)
    (h : (ofOutcome x).runIn w = (.error e, w')) : e.report.code ≠ ReportCode.unexpectedKeyType.number := by
  rw [runIn_ofOutcome] at h
  exact Failure.code_ne_of_fits fun expected => hx expected e (Prod.mk.inj h).1

theorem code_ne_of_readText (h : (readText path).runIn w = (.error e, w')) :
    e.report.code ≠ ReportCode.unexpectedKeyType.number := by
  rcases runIn_bind_error h with h | ⟨bytes, w₁, -, h⟩
  · rw [runIn_readBytes] at h
    cases hread : w.tree.read w.here path with
    | ok bytes =>
      rw [hread] at h
      cases h
    | error kind =>
      rw [hread] at h
      cases h
      exact nofun
  · split at h
    · cases h
    · cases h
      exact nofun

end Action

/-- A password that need not be confirmed is there unless nobody is, and asking for it changes no file. -/
theorem Password.acquire_once (given : Option String) (prompt : String) (attempts : Nat) (w : World) :
    (∃ w', (acquire given prompt false attempts).runIn w = (.error (Action.failureOf World.noAnswer), w')) ∨
      ∃ password w', (acquire given prompt false attempts).runIn w = (.ok password, w') ∧
        w'.tree = w.tree ∧ w'.here = w.here := by
  cases given with
  | some password => exact .inr ⟨password, w, rfl, rfl, rfl⟩
  | none =>
    have hprompt : acquire none prompt false attempts = Action.prompt prompt := rfl
    rw [hprompt, Action.runIn_prompt]
    cases w.answers with
    | nil => exact .inl ⟨_, rfl⟩
    | cons a rest => exact .inr ⟨a, _, rfl, rfl, rfl⟩

namespace Custodian

variable {c : Custodian} {scheme : Scheme} {given : Option String}

/-! ## Reading -/

/-- A public key that is refused for its kind is refused for what its file holds as text. -/
theorem loadPublic_refused (hcode : e.report.code = ReportCode.unexpectedKeyType.number)
    (h : (loadPublic path expected scheme).runIn w = (.error e, w')) :
    ∃ text, publicKeyOf text expected scheme = .error e := by
  rcases Action.runIn_bind_error h with h | ⟨_, w₁, -, h⟩
  · exact absurd hcode (Action.code_ne_of_ofOutcome (fun _ => path.check_failsFor) h)
  rcases Action.runIn_bind_error h with h | ⟨text, w₂, -, h⟩
  · exact absurd hcode (Action.code_ne_of_readText h)
  rw [Action.runIn_ofOutcome] at h
  exact ⟨text, (Prod.mk.inj h).1⟩

/-- A private key that is refused for its kind is refused for what its file holds as text. -/
theorem loadPrivate_refused (hcode : e.report.code = ReportCode.unexpectedKeyType.number)
    (h : (c.loadPrivate path expected given scheme).runIn w = (.error e, w')) :
    ∃ text password, w.tree.read w.here path = .ok (Text.utf8 text) ∧
      c.privateKeyOf text expected password scheme = .error e := by
  have hlast : (Password.acquire given (Password.importPrompt expected path) false
      c.settings.maxPasswordAttempts.toNat >>= fun password => Action.readText path >>= fun text =>
        Action.ofOutcome (c.privateKeyOf text expected password scheme)).runIn w = (.error e, w') →
      ∃ text password, w.tree.read w.here path = .ok (Text.utf8 text) ∧
        c.privateKeyOf text expected password scheme = .error e := by
    intro h
    rcases Password.acquire_once given (Password.importPrompt expected path)
      c.settings.maxPasswordAttempts.toNat w with ⟨w₁, hrun⟩ | ⟨password, w₁, hrun, htree, hhere⟩
    · rw [Action.runIn_bind, hrun, Action.andThen_error] at h
      cases h
      cases hcode
    rw [Action.runIn_bind, hrun, Action.andThen_ok] at h
    rcases Action.runIn_bind_error h with h | ⟨text, w₂, htext, h⟩
    · exact absurd hcode (Action.code_ne_of_readText h)
    obtain ⟨⟨bytes, hread, hspells⟩, -⟩ := Action.runIn_readText.mp htext
    rw [htree, hhere, ← Text.utf8_of_ofUtf8? hspells] at hread
    rw [Action.runIn_ofOutcome] at h
    exact ⟨text, password, hread, (Prod.mk.inj h).1⟩
  unfold loadPrivate at h
  rcases Action.runIn_bind_error h with h | ⟨_, w₁, hchecked, h⟩
  · exact absurd hcode (Action.code_ne_of_ofOutcome (fun _ => path.check_failsFor) h)
  rw [Action.runIn_ofOutcome] at hchecked
  obtain rfl := (Prod.mk.inj hchecked).2
  simp only at h
  split_ifs at h
  · rcases Action.runIn_bind_error h with h | ⟨_, w₁, hscheme, h⟩
    · exact absurd hcode (Action.code_ne_of_ofOutcome (fun _ => checkScheme_failsFor _ _) h)
    rw [Action.runIn_ofOutcome] at hscheme
    obtain rfl := (Prod.mk.inj hscheme).2
    exact hlast h
  · exact hlast h

/-- The file at a path is a JSON document that names a kind of key. -/
def HoldsNamed (w : World) (path : Path) (kind : KeyType) : Prop :=
  ∃ text, w.tree.read w.here path = .ok (Text.utf8 text) ∧ namedKeyType? text = some kind

/-- A report that a key of another kind has been found names the kind that is expected, and another one that
has been found, unless an RSA private key is expected and the file is a JSON document that names RSA as its
kind. -/
theorem load_unexpectedKeyType (c : Custodian) (given : Option String)
    (hcode : e.report.code = ReportCode.unexpectedKeyType.number) :
    ((loadPublic path expected scheme).runIn w = (.error e, w') →
        ∃ found, e = .unexpectedKeyType expected found ∧ found ≠ expected) ∧
      ((c.loadPrivate path expected given scheme).runIn w = (.error e, w') →
        ∃ found, e = .unexpectedKeyType expected found ∧
          (found = expected ↔ expected = .rsa ∧ HoldsNamed w path .rsa)) := by
  constructor
  · intro h
    obtain ⟨text, h⟩ := loadPublic_refused hcode h
    exact (publicKeyOf_failsFor text expected scheme e h).unexpectedKeyType hcode
  · intro h
    obtain ⟨text, password, hread, h⟩ := loadPrivate_refused hcode h
    have htext : ∀ text', w.tree.read w.here path = .ok (Text.utf8 text') → text' = text := by
      intro text' hread'
      have hsame := Except.ok.inj (hread'.symm.trans hread)
      simpa only [Text.ofUtf8?_utf8, Option.some.injEq] using congrArg Text.ofUtf8? hsame
    -- the only report that is made without a look at the kind that was found
    by_cases hnamed : expected = .rsa ∧ namedKeyType? text = some .rsa
    · obtain ⟨rfl, hnamed⟩ := hnamed
      rw [privateKeyOf_named hnamed] at h
      cases h
      exact ⟨.rsa, rfl, iff_of_true rfl ⟨rfl, text, hread, hnamed⟩⟩
    · have hfits := privateKeyOf_failsFor (fun hrsa hrsa' => hnamed ⟨hrsa, hrsa'⟩) c password scheme e h
      obtain ⟨found, rfl, hfound⟩ := hfits.unexpectedKeyType hcode
      refine ⟨found, rfl, iff_of_false hfound ?_⟩
      rintro ⟨hrsa, text', hread', hnamed'⟩
      rw [htext text' hread'] at hnamed'
      exact hnamed ⟨hrsa, hnamed'⟩

/-- The document of a key is read as a public key of a second kind and as a private key of a third. -/
theorem load_unexpectedKeyType_specimen :
    (∃ e w', (loadPublic ⟨"k"⟩ .ecdsa .ecdsa).runIn (holding (Text.utf8 KeyPair.specimen.document)) =
        (.error e, w') ∧
      e.report.code = ReportCode.unexpectedKeyType.number ∧
        ∃ found, e = .unexpectedKeyType .ecdsa found ∧ found ≠ .ecdsa) ∧
      ∃ e w', (default.loadPrivate ⟨"k"⟩ .rsa (some "") .rsaPss).runIn
          (holding (Text.utf8 KeyPair.specimen.document)) = (.error e, w') ∧
        e.report.code = ReportCode.unexpectedKeyType.number ∧
          ∃ found, e = .unexpectedKeyType .rsa found ∧ (found = .rsa ↔ KeyType.rsa = .rsa ∧
            HoldsNamed (holding (Text.utf8 KeyPair.specimen.document)) ⟨"k"⟩ .rsa) := by
  have hnamed : namedKeyType? KeyPair.specimen.document = some .ed25519 := KeyPair.namedKeyType?_document _
  have hrefused : publicKeyOf KeyPair.specimen.document .ecdsa .ecdsa =
      .error (.unexpectedKeyType .ecdsa .ed25519) :=
    publicKeyOf_named (m := KeyPair.specimen.metadata) hnamed (by decide) _
  have hpublic : (loadPublic ⟨"k"⟩ .ecdsa .ecdsa).runIn (holding (Text.utf8 KeyPair.specimen.document)) =
      (.error (.unexpectedKeyType .ecdsa .ed25519), holding (Text.utf8 KeyPair.specimen.document)) := by
    have hcheck : Path.check ⟨"k"⟩ = .ok () := by decide
    rw [loadPublic_run (read_holding _), hcheck, textOf_utf8, Outcome.ok_bind, Outcome.ok_bind, hrefused]
  have hprivate : (default.loadPrivate ⟨"k"⟩ .rsa (some "") .rsaPss).runIn
      (holding (Text.utf8 KeyPair.specimen.document)) =
      (.error (.unexpectedKeyType .rsa .ed25519), holding (Text.utf8 KeyPair.specimen.document)) := by
    have hread := readPrivate_given default (show Path.check ⟨"k"⟩ = .ok () by decide)
      (readText_utf8 (read_holding (Text.utf8 KeyPair.specimen.document))) .rsa ""
    rwa [privateKeyOf_named hnamed] at hread
  exact ⟨⟨_, _, hpublic, rfl, (load_unexpectedKeyType default none rfl).1 hpublic⟩,
    ⟨_, _, hprivate, rfl, (load_unexpectedKeyType default _ rfl).2 hprivate⟩⟩

def namedRsa : String := (Json.Value.object [("keytype", .string "rsa")]).text

theorem readPrivate_namedRsa (password : String) :
    (default.readPrivate ⟨"k"⟩ .rsa (some password)).runIn (holding (Text.utf8 namedRsa)) =
      (.error (.unexpectedKeyType .rsa .rsa), holding (Text.utf8 namedRsa)) := by
  have hnumberless : (Json.Value.object [("keytype", .string "rsa")]).Numberless 127 := by
    refine .object fun m hm => ?_
    obtain rfl := List.mem_singleton.mp hm
    exact .string _ _
  have hnamed : namedKeyType? namedRsa = some .rsa := namedKeyType?_object hnumberless rfl
  rw [readPrivate_given default (by decide) (readText_utf8 (read_holding _)), privateKeyOf_named hnamed]

/-- The kind that is found need not be different from the one that is expected. -/
theorem load_unexpectedKeyType_same :
    ¬ ∀ (c : Custodian) (path : Path) (expected : KeyType) (given : Option String) (w w' : World)
      (e : Failure), e.report.code = ReportCode.unexpectedKeyType.number →
        ((readPublic path expected).runIn w = (.error e, w') ∨
          (c.readPrivate path expected given).runIn w = (.error e, w')) →
          ∃ named found, e = .unexpectedKeyType named found ∧ found ≠ named := by
  intro hall
  obtain ⟨named, found, he, hne⟩ := hall default _ _ _ _ _ _ rfl (.inr (readPrivate_namedRsa ""))
  cases he
  exact hne rfl

end Custodian

end KeyCustody
