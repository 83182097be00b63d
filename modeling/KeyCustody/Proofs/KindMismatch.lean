import KeyCustody.Proofs.DocumentNames
import KeyCustody.Proofs.Formats
import KeyCustody.Proofs.KeyDocument
import KeyCustody.Proofs.PublicBlock
import KeyCustody.Proofs.Reading
/-! # Public keys of another kind

A file that holds the metadata of a key may be read as a key of another kind. It is said which kind it holds
where the metadata is looked at: for every kind but RSA, since the metadata is read, and for RSA if the kind
is found in it as in any JSON document. Otherwise an RSA key is looked for, and there is none. -/

namespace KeyCustody

/-- A report that a key of some kind has been found instead of the expected one. -/
def Failure.NamesFound (e : Failure) (found : KeyType) : Prop :=
  e.report.category = "FormatError" ∧ e.report.code = ReportCode.unexpectedKeyType.number ∧
    ("'" ++ found.name ++ "'").toList <:+: e.report.message.toList

theorem Failure.namesFound_unexpectedKeyType (expected found : KeyType) :
    (Failure.unexpectedKeyType expected found).NamesFound found := by
  let start : String := "Invalid format: " ++ "keytype" ++ " - expected " ++ ("'" ++ expected.name ++ "'") ++
    ", got "
  have hmessage : (Failure.unexpectedKeyType expected found).report.message =
      start ++ ("Invalid key type loaded: '" ++ found.name ++ "'") := rfl
  have hquote : "Invalid key type loaded: '".toList =
      "Invalid key type loaded: ".toList ++ "'".toList := rfl
  refine ⟨rfl, rfl, start.toList ++ "Invalid key type loaded: ".toList, [], ?_⟩
  rw [hmessage]
  simp only [String.toList_append, hquote, List.append_assoc, List.append_nil]

theorem Failure.not_namesFound_rsaPem (fault : PemFault) (found : KeyType) :
    ¬ (Failure.rsaPem .publicHalf fault).NamesFound found :=
  fun h => absurd (show "DecodeError" = "FormatError" from h.1) (by decide)

namespace Custodian

variable {text : String} {expected : KeyType} {scheme : Scheme} {m : Metadata} {path : Path} {w : World}

theorem publicKeyOf_undashed (hnone : namedKeyType? text = none)
    (hline : ¬ Text.DashedLine text.toList) :
    publicKeyOf text .rsa .rsaPss = .error (.rsaPem .publicHalf .malformed) := by
  have hblock : Rsa.block? (Rsa.publicBlock text.toList) = none := by
    rw [Option.eq_none_iff_forall_ne_some]
    intro block hblock
    exact hline ((Rsa.dashedLine_of_block? hblock).mono (Rsa.publicBlock_isInfix text.toList))
  simp only [publicKeyOf, hnone, Rsa.readPublic, Rsa.PublicKey.parse, hblock]
  rfl

theorem publicKeyOf_named (hnamed : namedKeyType? text = some m.keytype) (hkind : m.keytype ≠ expected)
    (scheme : Scheme) : publicKeyOf text expected scheme = .error (.unexpectedKeyType expected m.keytype) := by
  simp only [publicKeyOf, hnamed, ne_eq, hkind, not_false_eq_true, if_true]
  rfl

theorem publicKeyOf_unnamed (hnone : namedKeyType? text = none)
    (hparse : Metadata.parse (Text.utf8 text) = .ok m) (hkind : m.keytype ≠ expected)
    (hrsa : expected ≠ .rsa) (scheme : Scheme) :
    publicKeyOf text expected scheme = .error (.unexpectedKeyType expected m.keytype) := by
  have hrefused : KeyPair.ofMetadata m expected = .error (.unexpectedKeyType expected m.keytype) := by
    rw [KeyPair.ofMetadata, if_pos hkind]
    rfl
  cases expected with
  | rsa => exact absurd rfl hrsa
  | ed25519 => simp only [publicKeyOf, hnone, hparse, Outcome.ok_bind, hrefused]
  | ecdsa => simp only [publicKeyOf, hnone, hparse, Outcome.ok_bind, hrefused]

/-- What reading metadata as a key of another kind comes to. -/
theorem publicKeyOf_mismatch (hparse : Metadata.parse (Text.utf8 text) = .ok m)
    (hkind : m.keytype ≠ expected) :
    (expected ≠ .rsa ∨ NamesKind text → publicKeyOf text expected expected.defaultScheme =
        .error (.unexpectedKeyType expected m.keytype)) ∧
      (¬ (expected ≠ .rsa ∨ NamesKind text) → publicKeyOf text expected expected.defaultScheme =
        .error (.rsaPem .publicHalf .malformed)) := by
  obtain ⟨hnamed, hunnamed⟩ := Metadata.namedKeyType?_of_parse hparse
  by_cases hname : NamesKind text
  · exact ⟨fun _ => publicKeyOf_named (hnamed hname) hkind _, fun h => absurd (.inr hname) h⟩
  · by_cases hrsa : expected = .rsa
    · subst hrsa
      exact ⟨fun h => absurd hname (not_not.mpr (h.resolve_left fun h => h rfl)), fun _ =>
        publicKeyOf_undashed (hunnamed hname) (Metadata.not_dashedLine_of_parse hparse)⟩
    · exact ⟨fun _ => publicKeyOf_unnamed (hunnamed hname) hparse hkind hrsa _,
        fun h => absurd (.inl hrsa) h⟩

/-- A file that holds the metadata of a key is refused as a public key of another kind. The kind that it
holds is named, unless an RSA key is expected and the document does not name its kind as an object with
that kind as a string: then it is said not to be an RSA key. -/
theorem readPublic_mismatch (hpath : path.check = .ok ())
    (hcontents : w.tree.read w.here path = .ok (Text.utf8 text))
    (hparse : Metadata.parse (Text.utf8 text) = .ok m) (hkind : m.keytype ≠ expected) :
    ((∃ e, (readPublic path expected).runIn w = (.error e, w) ∧ e.NamesFound m.keytype) ↔
        expected ≠ .rsa ∨ NamesKind text) ∧
      ((readPublic path expected).runIn w = (.error (.unexpectedKeyType expected m.keytype), w) ∨
        (readPublic path expected).runIn w = (.error (.rsaPem .publicHalf .malformed), w)) := by
  obtain ⟨hfound, hmalformed⟩ := publicKeyOf_mismatch hparse hkind
  rw [readPublic_utf8 hpath hcontents]
  by_cases hcondition : expected ≠ .rsa ∨ NamesKind text
  · rw [hfound hcondition]
    exact ⟨⟨fun _ => hcondition,
      fun _ => ⟨_, rfl, Failure.namesFound_unexpectedKeyType expected m.keytype⟩⟩, .inl rfl⟩
  · rw [hmalformed hcondition]
    refine ⟨⟨?_, fun h => absurd h hcondition⟩, .inr rfl⟩
    rintro ⟨e, he, hnames⟩
    cases he
    exact absurd hnames (Failure.not_namesFound_rsaPem _ _)

def published : World :=
  { World.start [] [] fun _ => 0 with
    tree := ⟨[
      (["k"], .file (Text.utf8 KeyPair.specimen.metadata.document)),
      (["l"], .file (Text.utf8 KeyPair.specimen.metadata.listing.text))]⟩ }

theorem readPublic_mismatch_published :
    ∃ e, (readPublic ⟨"k"⟩ .ecdsa).runIn published = (.error e, published) ∧ e.NamesFound .ed25519 := by
  have hcontents : published.tree.read published.here ⟨"k"⟩ =
      .ok (Text.utf8 KeyPair.specimen.metadata.document) := rfl
  have hkind : KeyPair.specimen.metadata.keytype ≠ .ecdsa := by decide
  obtain ⟨hnames, -⟩ := readPublic_mismatch (by decide) hcontents (Metadata.parse_document _) hkind
  exact hnames.mpr (.inl (by decide))

/-- Metadata that stands as a list is not refused as an RSA key for its kind. -/
theorem readPublic_mismatch_listed :
    ¬ ∀ (path : Path) (w : World) (text : String) (m : Metadata) (expected : KeyType),
      path.check = .ok () → w.tree.read w.here path = .ok (Text.utf8 text) →
        Metadata.parse (Text.utf8 text) = .ok m → m.keytype ≠ expected →
          ∃ e, (readPublic path expected).runIn w = (.error e, w) ∧ e.NamesFound m.keytype := by
  intro hall
  have hcontents : published.tree.read published.here ⟨"l"⟩ =
      .ok (Text.utf8 KeyPair.specimen.metadata.listing.text) := rfl
  have hparse := KeyPair.specimen.metadata.parse_listing
  have hmalformed : publicKeyOf KeyPair.specimen.metadata.listing.text .rsa .rsaPss =
      .error (.rsaPem .publicHalf .malformed) :=
    publicKeyOf_undashed (namedKeyType?_list _) (Metadata.not_dashedLine_of_parse hparse)
  obtain ⟨e, he, hnames⟩ := hall ⟨"l"⟩ published _ _ .rsa (by decide) hcontents hparse (by decide)
  rw [readPublic_utf8 (by decide) hcontents] at he
  cases hmalformed.symm.trans (congrArg Prod.fst he)
  exact Failure.not_namesFound_rsaPem _ _ hnames

end Custodian

end KeyCustody
