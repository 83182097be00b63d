import KeyCustody.Proofs.KeyPair
import KeyCustody.Proofs.Reading
import Mathlib.Tactic.Common
/-! # Failures of contents and failures of the host

When a file is there and can be read, nothing is left for the host to refuse, and a failure to read a key
from it should be put down to its contents. Every decoder on the way keeps to that; only the first step,
which takes the bytes of the file as text, reports bytes that are no text as a failure of the host. The
decoders also say that a key of another kind has been found only if it is of another kind. -/

namespace KeyCustody

variable {α β ε : Type}

/-- Failures to read a key of an expected kind that are put down to what was asked for or what was read. If
the kind of the key is to blame, it is not the expected one. -/
def Failure.Fits (expected : KeyType) : Failure → Prop
  | .io _ _ => False
  | .unknownKeyType _ => False
  | .unexpectedKeyType named found => named = expected ∧ found ≠ expected
  | _ => True

theorem Failure.category_of_ne_io {e : Failure} (h : ∀ kind text, e ≠ .io kind text) :
    e.report.category ∈ ["FormatError", "DecodeError", "CryptoError"] := by
  cases e with
  | io kind text => exact absurd rfl (h kind text)
  | settings fault => cases fault <;> simp [report, settingsReport, Report.category]
  | rsaPem half fault => cases half <;> simp [report, Report.category]
  | _ => simp [report, Report.category, Report.unexpectedKeyType, Report.decryptionFailed]

namespace Outcome

/-- A failure, if there is one, is put down to what was asked for or what was read. -/
def SparesHost (x : Outcome α) : Prop :=
  ∀ e, x = .error e → e.report.category ∈ ["FormatError", "DecodeError", "CryptoError"]

theorem SparesHost.error {e : Failure} (h : ∀ kind text, e ≠ .io kind text) :
    SparesHost (.error e : Outcome α) := by
  intro e' he
  cases he
  exact Failure.category_of_ne_io h

/-- A failure, if there is one, fits the expectation of a key of some kind. -/
def FailsFor (expected : KeyType) (x : Outcome α) : Prop := ∀ e, x = .error e → e.Fits expected

namespace FailsFor

variable {expected : KeyType} {x : Outcome α} {f : α → Outcome β} {e : Failure} {o : Option α}

theorem ok (a : α) : FailsFor expected (.ok a) := fun _ h => by cases h

theorem error (h : e.Fits expected) : FailsFor expected (.error e : Outcome α) := by
  intro e' he
  cases he
  exact h

theorem bind_ok (hx : x.FailsFor expected) (hf : ∀ a, x = .ok a → (f a).FailsFor expected) :
    (x >>= f).FailsFor expected := by
  cases x with
  | error e =>
    intro e' he
    exact hx e' (congrArg _ (Except.error.inj he))
  | ok a => exact hf a rfl

theorem bind (hx : x.FailsFor expected) (hf : ∀ a, (f a).FailsFor expected) : (x >>= f).FailsFor expected :=
  hx.bind_ok fun a _ => hf a

theorem ite {p : Prop} [Decidable p] {y : Outcome α} (hx : x.FailsFor expected) (hy : y.FailsFor expected) :
    FailsFor expected (if p then x else y) := by
  split_ifs
  · exact hx
  · exact hy

theorem ofOption (h : e.Fits expected) : FailsFor expected (Outcome.ofOption e o) := by
  cases o with
  | none => exact error h
  | some a => exact ok a

theorem require {condition : Bool} (h : e.Fits expected) :
    FailsFor expected (Outcome.require condition e) := by
  unfold Outcome.require
  split_ifs
  · exact ok ()
  · exact error h

theorem mapError {y : Except ε α} {cause : ε → Failure} (h : ∀ fault, (cause fault).Fits expected) :
    FailsFor expected (y.mapError cause) := by
  cases y with
  | error fault => exact error (h fault)
  | ok a => exact ok a

theorem sparesHost (h : x.FailsFor expected) : x.SparesHost := by
  intro e he
  refine Failure.category_of_ne_io ?_
  rintro kind text rfl
  exact h _ he

end FailsFor

end Outcome

open Outcome

variable {text password : String} {expected : KeyType} {scheme : Scheme} {c : Custodian}

/-! ## Keys and their halves -/

theorem Path.check_failsFor (p : Path) : p.check.FailsFor expected := by
  unfold Path.check
  split_ifs
  · exact .error trivial
  · exact .error trivial
  · exact .ok ()

theorem Path.check_sparesHost (p : Path) : p.check.SparesHost :=
  FailsFor.sparesHost (p.check_failsFor : p.check.FailsFor .rsa)

theorem checkScheme_failsFor (keytype : KeyType) (scheme : Scheme) :
    (checkScheme keytype scheme).FailsFor expected := by
  unfold checkScheme
  split_ifs
  · exact .ok ()
  · exact .error trivial

theorem Rsa.checkAlgorithm_failsFor (half : Half) (oid : Der.Oid) :
    (checkAlgorithm half oid).FailsFor .rsa := by
  unfold checkAlgorithm
  cases KeyType.ofOid? oid with
  | none => exact .error trivial
  | some found =>
    cases found with
    | rsa => exact .ok ()
    | ed25519 => exact .error ⟨rfl, nofun⟩
    | ecdsa => exact .error ⟨rfl, nofun⟩

theorem Rsa.wellFormed_failsFor (half : Half) (o : Option α) : (wellFormed half o).FailsFor expected :=
  .ofOption trivial

theorem Rsa.PublicKey.parse_failsFor (text : String) : (parse text).FailsFor .rsa := by
  unfold parse
  refine .bind (wellFormed_failsFor _ _) fun block => ?_
  dsimp only
  split_ifs
  · exact .error trivial
  refine .bind (wellFormed_failsFor _ _) fun info => .bind (checkAlgorithm_failsFor _ _) fun _ =>
    .bind (wellFormed_failsFor _ _) fun key => ?_
  split_ifs
  · exact .ok key
  · exact .error trivial

theorem Rsa.PrivateKey.parse_failsFor (text : String) : (parse text).FailsFor expected :=
  wellFormed_failsFor _ _

theorem Rsa.PrivateKey.unlock_failsFor (text password : String) :
    (unlock text password).FailsFor .rsa := by
  unfold unlock
  have hinfo : ∀ info, FailsFor .rsa (checkAlgorithm .privateHalf info.algorithm.name >>= fun _ =>
      wellFormed .privateHalf (ofInfo? info)) := fun info =>
    .bind (checkAlgorithm_failsFor _ _) fun _ => wellFormed_failsFor _ _
  refine .bind (wellFormed_failsFor _ _) fun block => .ite (.ite (.error trivial) ?_)
    (.ite (.ite (.error trivial) ?_) (.error trivial))
  · exact .bind (wellFormed_failsFor _ _) fun encrypted => .bind (.ofOption trivial) hinfo
  · exact .bind (wellFormed_failsFor _ _) hinfo

theorem Ed25519.bytesOf_failsFor (half : Half) (text : String) : (bytesOf half text).FailsFor expected := by
  unfold bytesOf
  refine .bind (.mapError fun _ => trivial) fun b => ?_
  split_ifs
  · exact .ok b
  · exact .error trivial

theorem Ed25519.publicBytes_failsFor (text : String) : (publicBytes text).FailsFor expected :=
  .bind (bytesOf_failsFor _ _) fun b => .bind (.require trivial) fun _ => .ok b

namespace KeyPair

theorem make_failsFor (keytype : KeyType) (scheme : Scheme) (publicHalf privateHalf : String) :
    (make keytype scheme publicHalf privateHalf).FailsFor expected :=
  .bind (checkScheme_failsFor _ _) fun _ => .ok _

theorem validateHalves_failsFor (k : KeyPair) : k.validateHalves.FailsFor k.keytype := by
  unfold validateHalves
  split
  next hkind =>
    rw [hkind]
    refine .bind (Rsa.PublicKey.parse_failsFor _) fun publicKey => ?_
    split_ifs
    · exact .bind (Rsa.PrivateKey.parse_failsFor _) fun privateKey => .require trivial
    · exact .ok ()
  · refine .bind (Ed25519.publicBytes_failsFor _) fun publicKey => ?_
    split_ifs
    · exact .bind (Ed25519.bytesOf_failsFor _ _) fun seed => .require trivial
    · exact .ok ()
  · refine .bind (.ofOption trivial) fun publicKey => ?_
    split_ifs
    · exact .bind (.ofOption trivial) fun privateKey => .require trivial
    · exact .ok ()

theorem validate_failsFor (k : KeyPair) : k.validate.FailsFor k.keytype :=
  .bind (checkScheme_failsFor _ _) fun _ => k.validateHalves_failsFor

theorem validate_failsFor_of_make {keytype : KeyType} {publicHalf privateHalf : String} {k : KeyPair}
    (h : make keytype scheme publicHalf privateHalf = .ok k) : k.validate.FailsFor keytype := by
  obtain ⟨-, rfl⟩ := make_eq_ok.mp h
  exact validate_failsFor _

theorem ofMetadata_failsFor (m : Metadata) (expected : KeyType) :
    (ofMetadata m expected).FailsFor expected := by
  unfold ofMetadata
  dsimp only
  split_ifs with hkind
  · exact .error ⟨rfl, hkind⟩
  rw [not_not] at hkind
  rw [hkind]
  exact .bind_ok (make_failsFor _ _ _ _) fun k hk => .bind (validate_failsFor_of_make hk) fun _ => .ok k

end KeyPair

/-! ## Envelopes -/

namespace Envelope

theorem decode_failsFor (text : String) : (decode text).FailsFor expected := by
  have hhex : ∀ name cs, (hexField name cs).FailsFor expected := fun name cs => .mapError fun _ => trivial
  have hcount : ∀ cs, (countField cs).FailsFor expected := by
    intro cs
    unfold countField
    simp only
    split
    · split_ifs
      · exact .ok _
      · exact .error trivial
    · exact .error trivial
  unfold decode
  split
  · refine .bind (hhex _ _) fun salt => .bind (hcount _) fun iterations => .bind (hhex _ _) fun tag =>
      .bind (hhex _ _) fun iv => .bind (hhex _ _) fun ciphertext => ?_
    exact .ite (.error trivial) (.ite (.error trivial) (.ite (.error trivial) (.ok _)))
  · exact .error trivial

theorem unlock_failsFor (e : Envelope) (password : String) : (e.unlock password).FailsFor expected := by
  unfold unlock
  dsimp only
  split_ifs
  · exact .error trivial
  refine .bind (.require trivial) fun _ => ?_
  unfold applyKeyStream
  split
  · split_ifs
    · exact .ok _
    · exact .error trivial
  · exact .error trivial

theorem unlockText_failsFor (text password : String) (limit : UInt32) :
    (unlockText text password limit).FailsFor expected := by
  unfold unlockText
  refine .bind (decode_failsFor text) fun e => ?_
  dsimp only
  split_ifs
  · exact .error trivial
  · exact e.unlock_failsFor password

end Envelope

/-! ## Texts of keys -/

theorem Rsa.keyPair_failsFor (key : PrivateKey) (scheme : Scheme) :
    (keyPair key scheme).FailsFor expected :=
  .bind (wellFormed_failsFor _ _) fun _ => KeyPair.make_failsFor _ _ _ _

namespace Custodian

variable {contents : Bytes} {path : Path} {w : World}

theorem publicKeyOf_failsFor (text : String) (expected : KeyType) (scheme : Scheme) :
    (publicKeyOf text expected scheme).FailsFor expected := by
  have hrsa : FailsFor .rsa (checkScheme .rsa scheme >>= fun _ => Rsa.readPublic text scheme) :=
    .bind (checkScheme_failsFor _ _) fun _ => .bind (Rsa.PublicKey.parse_failsFor _) fun key =>
      KeyPair.make_failsFor _ _ _ _
  have hmetadata : ∀ expected, FailsFor expected (Metadata.parse (Text.utf8 text) >>= fun m =>
      KeyPair.ofMetadata m expected) := fun expected =>
    .bind (.mapError fun _ => trivial) fun m => KeyPair.ofMetadata_failsFor m expected
  unfold publicKeyOf
  cases namedKeyType? text with
  | none =>
    cases expected with
    | rsa => exact hrsa
    | ed25519 => exact hmetadata .ed25519
    | ecdsa => exact hmetadata .ecdsa
  | some found =>
    dsimp only
    split_ifs with hkind
    · exact .error ⟨rfl, hkind⟩
    · cases expected with
      | rsa => exact hrsa
      | ed25519 => exact hmetadata .ed25519
      | ecdsa => exact hmetadata .ecdsa

theorem publicKeyOf_sparesHost (text : String) (expected : KeyType) (scheme : Scheme) :
    (publicKeyOf text expected scheme).SparesHost :=
  (publicKeyOf_failsFor text expected scheme).sparesHost

theorem keyPairOf_failsFor (c : Custodian) (document : Bytes) (expected : KeyType) :
    (c.keyPairOf document expected).FailsFor expected := by
  unfold keyPairOf
  refine .bind (.mapError fun _ => trivial) fun stored => ?_
  dsimp only
  split_ifs with hkind
  · exact .error ⟨rfl, hkind⟩
  rw [not_not] at hkind
  rw [hkind]
  exact .bind_ok (KeyPair.make_failsFor _ _ _ _) fun k hk => .ite (.error trivial)
    (.bind (KeyPair.validate_failsFor_of_make hk) fun _ => .ok _)

theorem privateKeyOf_named {found : KeyType} (hnamed : namedKeyType? text = some found) (c : Custodian)
    (password : String) (scheme : Scheme) :
    c.privateKeyOf text .rsa password scheme = .error (.unexpectedKeyType .rsa found) := by
  simp only [privateKeyOf, hnamed]

/-- An RSA key does not stand in a document that names a kind. Such a document is refused for the kind that
it names, even if that is RSA. -/
theorem privateKeyOf_failsFor (hnamed : expected = .rsa → namedKeyType? text ≠ some .rsa) (c : Custodian)
    (password : String) (scheme : Scheme) :
    (c.privateKeyOf text expected password scheme).FailsFor expected := by
  unfold privateKeyOf
  split
  · split
    next found hfound =>
      refine .error ⟨rfl, ?_⟩
      rintro rfl
      exact hnamed rfl hfound
    next =>
      exact .bind (Rsa.PrivateKey.unlock_failsFor _ _) fun key => Rsa.keyPair_failsFor key scheme
  · split_ifs
    · exact .error trivial
    · exact c.keyPairOf_failsFor _ _
    · exact .error trivial
    · exact .bind (Envelope.unlockText_failsFor _ _ _) fun document => c.keyPairOf_failsFor _ _

theorem privateKeyOf_sparesHost (c : Custodian) (text : String) (expected : KeyType)
    (password : String) (scheme : Scheme) :
    (c.privateKeyOf text expected password scheme).SparesHost := by
  by_cases hnamed : expected = .rsa → namedKeyType? text ≠ some .rsa
  · exact (privateKeyOf_failsFor hnamed c password scheme).sparesHost
  · push Not at hnamed
    obtain ⟨rfl, hnamed⟩ := hnamed
    rw [privateKeyOf_named hnamed]
    exact .error nofun

/-! ## Files of keys -/

theorem textOf_bind_sparesHost {f : String → Outcome α} (hf : ∀ text, (f text).SparesHost) :
    (textOf contents >>= f).SparesHost ↔ (Text.ofUtf8? contents).isSome = true := by
  unfold textOf
  cases Text.ofUtf8? contents with
  | none =>
    simp only [Option.isSome_none, Bool.false_eq_true, iff_false]
    exact fun h => absurd (h _ rfl) (by decide)
  | some text =>
    simp only [Outcome.ofOption, Outcome.ok_bind, hf, Option.isSome_some]

/-- Reading a file that is there comes to what its contents are, as text, as a private key. -/
theorem loadPrivate_outcome (hcontents : w.tree.read w.here path = .ok contents)
    (hscheme : expected = .rsa → scheme.keytype = .rsa) (c : Custodian) (password : String) :
    ((c.loadPrivate path expected (some password) scheme).runIn w).1 =
      path.check >>= fun _ => textOf contents >>= fun text =>
        c.privateKeyOf text expected password scheme := by
  have haccepted : ∀ attempts, Password.acquire (some password) (Password.importPrompt expected path)
      false attempts = pure password := fun _ => rfl
  have hrest : ((Action.readText path >>= fun text =>
      Action.ofOutcome (c.privateKeyOf text expected password scheme)).runIn w).1 =
        textOf contents >>= fun text => c.privateKeyOf text expected password scheme := by
    rw [Action.runIn_bind, readText_run hcontents]
    cases textOf contents <;> rfl
  rw [loadPrivate, Action.runIn_bind, Action.runIn_ofOutcome]
  cases path.check with
  | error e => rfl
  | ok _ =>
    rw [Action.andThen_ok, Outcome.ok_bind, ← hrest]
    simp only [haccepted]
    by_cases hkind : expected = .rsa
    · have hchecked : checkScheme .rsa scheme = .ok () := if_pos (hscheme hkind)
      simp only [if_pos hkind, hchecked]
      rfl
    · simp only [if_neg hkind]
      rfl

/-- A failure to read a key from a file that is there is put down to its contents exactly if they are
text; the only other failure is that they are none. -/
theorem load_sparesHost (hcontents : w.tree.read w.here path = .ok contents)
    (hscheme : expected = .rsa → scheme.keytype = .rsa) (c : Custodian) (password : String)
    (x : Outcome KeyPair)
    (hx : x = ((loadPublic path expected scheme).runIn w).1 ∨
      x = ((c.loadPrivate path expected (some password) scheme).runIn w).1) :
    (x.SparesHost ↔ (path.check = .ok () → (Text.ofUtf8? contents).isSome = true)) ∧
      (¬ x.SparesHost → x = .error (Action.failureOf IoKind.notText.fault)) := by
  obtain ⟨f, hf, hrun⟩ : ∃ f : String → Outcome KeyPair, (∀ text, (f text).SparesHost) ∧
      x = path.check >>= fun _ => textOf contents >>= f := by
    rcases hx with rfl | rfl
    · exact ⟨_, fun text => publicKeyOf_sparesHost text expected scheme,
        congrArg Prod.fst (loadPublic_run hcontents expected scheme)⟩
    · exact ⟨_, fun text => c.privateKeyOf_sparesHost text expected password scheme,
        loadPrivate_outcome hcontents hscheme c password⟩
  have hcheck := path.check_sparesHost
  cases hpath : path.check with
  | error e =>
    rw [hpath] at hcheck hrun
    have hspares : x.SparesHost := hrun ▸ fun e' he => hcheck e' (congrArg _ (Except.error.inj he))
    exact ⟨⟨fun _ h => (nomatch h), fun _ => hspares⟩, fun h => absurd hspares h⟩
  | ok _ =>
    rw [hpath, Outcome.ok_bind] at hrun
    subst hrun
    rw [textOf_bind_sparesHost hf]
    refine ⟨by simp, fun hnone => ?_⟩
    rw [Bool.not_eq_true, Option.isSome_eq_false_iff, Option.isNone_iff_eq_none] at hnone
    rw [textOf, hnone]
    rfl

def holding (contents : Bytes) : World :=
  { World.start [] [] fun _ => 0 with tree := ⟨[(["k"], .file contents)]⟩ }

theorem read_holding (contents : Bytes) :
    (holding contents).tree.read (holding contents).here ⟨"k"⟩ = .ok contents := rfl

theorem load_sparesHost_letter :
    (holding [0x78]).tree.read (holding [0x78]).here ⟨"k"⟩ = .ok [0x78] ∧
      Scheme.rsaPss.keytype = .rsa ∧ Outcome.SparesHost
        ((default.loadPrivate ⟨"k"⟩ .rsa (some "secret") .rsaPss).runIn (holding [0x78])).1 := by
  have hscheme : KeyType.rsa = .rsa → Scheme.rsaPss.keytype = .rsa := fun _ => rfl
  obtain ⟨hspares, -⟩ := load_sparesHost (read_holding [0x78]) hscheme default "secret" _ (.inr rfl)
  exact ⟨read_holding _, rfl, hspares.mpr fun _ => by decide⟩

/-- A byte that begins no character is reported as a failure of the host. -/
theorem load_not_sparesHost :
    ¬ ∀ (path : Path) (contents : Bytes) (w : World) (expected : KeyType) (scheme : Scheme)
      (c : Custodian) (password : String), w.tree.read w.here path = .ok contents →
        (expected = .rsa → scheme.keytype = .rsa) →
          Outcome.SparesHost ((loadPublic path expected scheme).runIn w).1 ∧
            Outcome.SparesHost ((c.loadPrivate path expected (some password) scheme).runIn w).1 := by
  intro hall
  obtain ⟨hpublic, -⟩ := hall ⟨"k"⟩ [0xFF] (holding [0xFF]) .ed25519 .ed25519 default ""
    (read_holding _) nofun
  rw [loadPublic_run (read_holding _)] at hpublic
  exact absurd (hpublic _ rfl) (by decide)

end Custodian

end KeyCustody
