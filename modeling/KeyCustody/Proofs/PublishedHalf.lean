import KeyCustody.Proofs.JsonMembers
import KeyCustody.Proofs.KeyMetadata
import KeyCustody.Proofs.KeySpelling
import KeyCustody.Proofs.PasswordState
/-! # The public half of a private document

The document of a key pair is read as the metadata of the key if it is an object and its halves do not stand as a
list of both of them. Where they do, or where the whole key pair stands as a list, metadata is read out of other
places than the key pair was, and refused. -/

namespace KeyCustody

open Json

variable {bs r r' rest contents : Bytes}

/-! ## Halves -/

namespace KeyVal

/-- The halves stand as a list, and the private one is in it. -/
def ListsBoth (bs : Bytes) : Prop :=
  ∃ r d rest, skipBlanks bs = 0x5B :: r ∧
    Layout.readItems layout.fields true layout.empty r = .ok (d, rest) ∧ d.privateHalf ≠ none

theorem narrows : layout.Narrows publicLayout (fun d e => e = d.publicHalf) (fun _ _ => True) publicHalf where
  takeValues := fieldsTakeValues
  named := by decide
  empty := rfl
  pass := by
    rintro field d d' e bs rest hfield hother rfl hfill
    simp only [layout, List.mem_cons, List.not_mem_nil, or_false] at hfield
    rcases hfield with rfl | rfl
    · cases hother
    · obtain ⟨x, -, rfl⟩ := Layout.fill_eq_ok.mp hfill
      rfl
  fill := by
    rintro field field' d d' e bs rest hfield hshared rfl hempty hfill -
    simp only [layout, List.mem_cons, List.not_mem_nil, or_false] at hfield
    rcases hfield with rfl | rfl
    · cases hshared
      obtain ⟨x, hread, rfl⟩ := Layout.fill_eq_ok.mp hfill
      exact ⟨hempty, some x, Layout.fill_eq_ok.mpr ⟨x, hread, rfl⟩, rfl⟩
    · cases hshared
  build := by
    rintro ⟨_ | half, privateHalf⟩ e v rfl hbuild
    · cases hbuild
    · cases hbuild
      rfl

/-- The public half is read wherever both are, unless they stand as a list of both. -/
theorem read_publicHalf {v : KeyVal} (h : layout.read bs = .ok (v, rest)) (hlist : ¬ ListsBoth bs) :
    publicLayout.read bs = .ok (v.publicHalf, rest) := by
  obtain ⟨r, hbs | hbs⟩ := Layout.brackets_of_read h
  · exact narrows.read hbs h fun _ _ _ => trivial
  · obtain ⟨d, r', hitems, hbuild, hend⟩ := (Layout.read_list_eq_ok hbs).mp h
    have hprivate : d.privateHalf = none := by
      by_contra hprivate
      exact hlist ⟨r, d, r', hbs, hitems, hprivate⟩
    obtain ⟨-, rfl⟩ | ⟨r₁, d₁, r₂, hnext, hfill, hitems⟩ := Layout.readItems_cons_eq_ok.mp hitems
    · cases hbuild
    obtain ⟨x, hx, rfl⟩ := Layout.fill_eq_ok.mp hfill
    obtain ⟨hlast, rfl⟩ | ⟨r₃, d₂, r₄, -, hfill, hitems⟩ := Layout.readItems_cons_eq_ok.mp hitems
    · cases hbuild
      refine (Layout.read_list_eq_ok hbs).mpr ⟨some x, r₂, ?_, rfl, ?_⟩
      · exact Layout.readItems_cons_eq_ok.mpr
          (.inr ⟨r₁, some x, r₂, hnext, Layout.fill_eq_ok.mpr ⟨x, hx, rfl⟩, rfl⟩)
      · rw [Layout.endOfItems_of_nextItem hlast]
        exact hend
    · obtain ⟨y, -, rfl⟩ := Layout.fill_eq_ok.mp hfill
      cases hitems
      cases hprivate

/-- After the public half of a list of both, the other one stands where the list is to end. -/
theorem read_publicHalf_ne (h : ListsBoth bs) (y : String × Bytes) : publicLayout.read bs ≠ .ok y := by
  obtain ⟨r, d, rest, hbs, hitems, hprivate⟩ := h
  intro hread
  obtain ⟨e, r', hitems', -, hend⟩ := (Layout.read_list_eq_ok hbs).mp hread
  obtain ⟨rfl, -⟩ | ⟨x, r₁, hitems, hitems'⟩ := Layout.readItems_alike hitems hitems'
  · exact hprivate rfl
  obtain ⟨-, rfl⟩ | ⟨r₂, d₂, r₃, hmore, -, -⟩ := Layout.readItems_cons_eq_ok.mp hitems
  · exact hprivate rfl
  cases hitems'
  cases hmore.symm.trans (Layout.nextItem_of_endOfItems hend false)

/-- A list in which a private half has been read is a list of both. -/
theorem listsBoth_of_read {v : KeyVal} (hbs : skipBlanks bs = 0x5B :: r) (h : layout.read bs = .ok (v, rest))
    (hprivate : v.privateHalf ≠ "") : ListsBoth bs := by
  obtain ⟨d, r', hitems, hbuild, -⟩ := (Layout.read_list_eq_ok hbs).mp h
  refine ⟨r, d, r', hbs, hitems, ?_⟩
  rintro hnone
  obtain ⟨_ | half, privateHalf⟩ := d
  · cases hbuild
  · cases hnone
    cases hbuild
    exact hprivate rfl

end KeyVal

/-! ## Key pairs -/

namespace KeyPair

variable {k : KeyPair}

/-- The fields of metadata among those of a key pair. -/
def Draft.published (d : Draft) : Metadata.Draft := ⟨d.keytype, d.scheme, d.keyval.map KeyVal.publicHalf⟩

theorem narrows :
    layout.Narrows Metadata.layout (fun d e => e = d.published)
      (fun key v => key = "keyval" → ¬ KeyVal.ListsBoth v) metadata where
  takeValues := fieldsTakeValues
  named := by decide
  empty := rfl
  pass := by
    rintro field d d' e bs rest hfield hother rfl hfill
    simp only [layout, List.mem_cons, List.not_mem_nil, or_false] at hfield
    rcases hfield with rfl | rfl | rfl | rfl | rfl
    · cases hother
    · cases hother
    · obtain ⟨x, -, rfl⟩ := Layout.fill_eq_ok.mp hfill
      rfl
    · obtain ⟨x, -, rfl⟩ := Layout.fill_eq_ok.mp hfill
      rfl
    · cases hother
  fill := by
    rintro field field' d d' e bs rest hfield hshared rfl hempty hfill hlegible
    simp only [layout, List.mem_cons, List.not_mem_nil, or_false] at hfield
    rcases hfield with rfl | rfl | rfl | rfl | rfl
    · cases hshared
      obtain ⟨x, hread, rfl⟩ := Layout.fill_eq_ok.mp hfill
      exact ⟨hempty, _, Layout.fill_eq_ok.mpr ⟨x, hread, rfl⟩, rfl⟩
    · cases hshared
      obtain ⟨x, hread, rfl⟩ := Layout.fill_eq_ok.mp hfill
      exact ⟨hempty, _, Layout.fill_eq_ok.mpr ⟨x, hread, rfl⟩, rfl⟩
    · cases hshared
    · cases hshared
    · cases hshared
      obtain ⟨v, hread, rfl⟩ := Layout.fill_eq_ok.mp hfill
      refine ⟨?_, _, Layout.fill_eq_ok.mpr ⟨_, KeyVal.read_publicHalf hread (hlegible rfl), rfl⟩, rfl⟩
      change d.keyval.isSome = false at hempty
      change (d.keyval.map KeyVal.publicHalf).isSome = false
      rw [Option.isSome_map, hempty]
  build := by
    rintro d e k rfl hbuild
    obtain ⟨_ | keytype, _ | scheme, _ | keyid, hashAlgorithms, _ | keyval⟩ := d
    all_goals cases hbuild
    rfl

/-- The third item of a key pair that stands as a list is a string, where metadata has the public half. -/
theorem read_metadata_ne_of_list (hbs : skipBlanks bs = 0x5B :: r) (h : layout.read bs = .ok (k, rest))
    (y : Metadata × Bytes) : Metadata.layout.read bs ≠ .ok y := by
  intro hread
  obtain ⟨d, r', hitems, hbuild, -⟩ := (Layout.read_list_eq_ok hbs).mp h
  obtain ⟨e, r'', hitems', hbuild', -⟩ := (Layout.read_list_eq_ok hbs).mp hread
  -- both lists begin with the kind and the scheme, so that their third items stand at the same place
  obtain ⟨rfl, -⟩ | ⟨keytype, r₁, hitems, hitems'⟩ := Layout.readItems_alike hitems hitems'
  · cases hbuild
  obtain ⟨rfl, -⟩ | ⟨scheme, r₂, hitems, hitems'⟩ := Layout.readItems_alike hitems hitems'
  · cases hbuild
  obtain ⟨rfl, -⟩ | ⟨r₃, d₃, e₃, r₄, r₄', hfill, hfill', -⟩ := Layout.readItems_both hitems hitems'
  · cases hbuild
  obtain ⟨keyid, hkeyid, -⟩ := Layout.fill_eq_ok.mp hfill
  obtain ⟨half, hhalf, -⟩ := Layout.fill_eq_ok.mp hfill'
  exact Layout.read_ne_of_string hkeyid _ hhalf

/-- The document is an object, and its halves do not stand as a list of both. -/
def NamesHalves (contents : Bytes) : Prop :=
  ∃ r, skipBlanks contents = 0x7B :: r ∧ ∀ v, MemberAt "keyval" v true r → ¬ KeyVal.ListsBoth v

/-- Where a key pair is read, its metadata is read as well exactly if the halves are named. -/
theorem parse_metadata (h : parse contents = .ok k) :
    (NamesHalves contents → Metadata.parse contents = .ok k.metadata) ∧
      (¬ NamesHalves contents → ∃ fault, Metadata.parse contents = .error (.metadata fault)) := by
  obtain ⟨rest, hread, hend⟩ := whole_eq_ok.mp (mapError_eq_ok.mp h)
  constructor
  · rintro ⟨r, hbs, hnamed⟩
    have hmetadata := narrows.read hbs hread fun key v hmember => by
      rintro rfl
      exact hnamed v hmember
    exact mapError_eq_ok.mpr (whole_eq_ok.mpr ⟨rest, hmetadata, hend⟩)
  · intro hnamed
    unfold Metadata.parse
    cases hparse : whole Metadata.layout.read contents with
    | error fault => exact ⟨fault, rfl⟩
    | ok m =>
      obtain ⟨rest', hread', -⟩ := whole_eq_ok.mp hparse
      obtain ⟨r, hbs | hbs⟩ := Layout.brackets_of_read hread
      · obtain ⟨v, hmember, hlists⟩ : ∃ v, MemberAt "keyval" v true r ∧ KeyVal.ListsBoth v := by
          by_contra hnone
          exact hnamed ⟨r, hbs, fun v hmember hlists => hnone ⟨v, hmember, hlists⟩⟩
        obtain ⟨d, r', hmembers, -⟩ := (Layout.read_object_eq_ok hbs).mp hread'
        obtain ⟨d₁, d₂, rest, hfill⟩ :=
          Layout.fill_of_memberAt Metadata.fieldsTakeValues hmember hmembers rfl
        obtain ⟨half, hhalf, -⟩ := Layout.fill_eq_ok.mp hfill
        exact absurd hhalf (KeyVal.read_publicHalf_ne hlists _)
      · exact absurd hread' (read_metadata_ne_of_list hbs hread _)

/-- The document that is written for a key pair names its halves. -/
theorem namesHalves_document (k : KeyPair) : NamesHalves (Text.utf8 k.document) := by
  by_contra hnamed
  obtain ⟨fault, hfault⟩ := (parse_metadata k.parse_document).2 hnamed
  cases hfault.symm.trans k.metadata_of_document

/-- A key pair as an object in which the halves are a list of both. -/
def halvesListing (k : KeyPair) : Value :=
  .object [("keytype", .string k.keytype.name), ("scheme", .string k.scheme.name), ("keyid", .string k.keyid),
    ("keyval", k.keyval.listing)]

theorem parse_halvesListing (k : KeyPair) :
    parse (Text.utf8 k.halvesListing.text) = .ok { k with hashAlgorithms := none } := by
  have hreads : Reads layout.read k.halvesListing { k with hashAlgorithms := none } := by
    refine Layout.reads_object (d := ⟨some k.keytype, some k.scheme, some k.keyid, none, some k.keyval⟩) ?_ rfl
    exact .cons rfl rfl (reads_field k.keytype.reads_name _)
      (.cons rfl rfl (reads_field k.scheme.reads_name _)
      (.cons rfl rfl (reads_field (reads_string _) _)
      (.cons rfl rfl (reads_field k.keyval.reads_listing _) (.nil _))))
  exact mapError_eq_ok.mpr (whole_text hreads)

theorem not_namesHalves_halvesListing (hprivate : k.hasPrivate = true) :
    ¬ NamesHalves (Text.utf8 k.halvesListing.text) := by
  have hnames : ∀ m ∈ [("keytype", Value.string k.keytype.name), ("scheme", .string k.scheme.name),
      ("keyid", .string k.keyid)], Reads Skipped.value m.2 () := by
    simp [skips_string]
  obtain ⟨r, more, hbs, hmember⟩ := memberAt_object hnames "keyval" k.keyval.listing []
  obtain ⟨tail, htail⟩ : ∃ tail, skipBlanks (Text.bytes k.keyval.listing.chars ++ more) = 0x5B :: tail := by
    rw [KeyVal.listing, bytes_list]
    exact ⟨_, rfl⟩
  rintro ⟨r', hbs', hnamed⟩
  rw [utf8_text] at hbs'
  cases hbs.symm.trans hbs'
  exact hnamed _ hmember
    (KeyVal.listsBoth_of_read htail (k.keyval.reads_listing more) (by simpa [hasPrivate] using hprivate))

end KeyPair

/-! ## Files -/

/-- The metadata of a sound key is that key without its private half. -/
theorem KeyPair.ofMetadata_metadata {expected : KeyType} {k : KeyPair} (h : k.Sound expected) :
    KeyPair.ofMetadata k.metadata expected = .ok { k.publicOnly with hashAlgorithms := none } := by
  have hassembled : assembled k.keytype k.scheme k.keyval.publicHalf "" =
      { k.publicOnly with hashAlgorithms := none } := by
    rw [assembled, ← h.keyid]
    rfl
  rw [← hassembled]
  obtain rfl := h.keytype
  exact Custodian.ofMetadata_eq_ok (m := k.metadata) (validate_assembled h.valid)

namespace Custodian

variable {c : Custodian} {expected : KeyType} {scheme : Scheme} {text : String} {k : KeyPair}

/-- A key that a document gives has the metadata of the key pair in it. -/
theorem exists_stored (h : c.keyPairOf contents expected = .ok k) :
    ∃ stored, KeyPair.parse contents = .ok stored ∧ stored.keytype = expected ∧ stored.metadata = k.metadata := by
  obtain ⟨stored, hparse, hkind, k', hmake, -, -, rfl⟩ := keyPairOf_eq_ok.mp h
  obtain ⟨-, rfl⟩ := KeyPair.make_eq_ok.mp hmake
  exact ⟨stored, hparse, hkind, rfl⟩

/-- Where no other kind is named, a key that is no RSA key is made of the metadata. -/
theorem publicKeyOf_metadata (hkind : expected ≠ .rsa)
    (hnamed : namedKeyType? text = none ∨ namedKeyType? text = some expected) (scheme : Scheme) :
    publicKeyOf text expected scheme = Metadata.parse (Text.utf8 text) >>= (KeyPair.ofMetadata · expected) := by
  cases expected with
  | rsa => exact absurd rfl hkind
  | ed25519 => obtain hnamed | hnamed := hnamed <;> simp [publicKeyOf, hnamed]
  | ecdsa => obtain hnamed | hnamed := hnamed <;> simp [publicKeyOf, hnamed]

theorem publicKeyOf_private (hkind : expected ≠ .rsa) (h : c.keyPairOf (Text.utf8 text) expected = .ok k)
    (scheme : Scheme) :
    (KeyPair.NamesHalves (Text.utf8 text) →
        publicKeyOf text expected scheme = .ok { k.publicOnly with hashAlgorithms := none }) ∧
      (¬ KeyPair.NamesHalves (Text.utf8 text) →
        ∃ fault, publicKeyOf text expected scheme = .error (.metadata fault)) := by
  have hsound := (keyPairOf_sound hkind h).toSound
  obtain ⟨stored, hparse, rfl, hmetadata⟩ := exists_stored h
  obtain ⟨hread, hrefused⟩ := KeyPair.parse_metadata hparse
  obtain ⟨hnames, hnot⟩ := namedKeyType?_of_parse hparse
  have hnamed : namedKeyType? text = none ∨ namedKeyType? text = some stored.keytype :=
    (em (NamesKind text)).elim (fun h => .inr (hnames h)) fun h => .inl (hnot h)
  rw [publicKeyOf_metadata hkind hnamed]
  constructor
  · intro hhalves
    rw [hread hhalves, hmetadata]
    exact KeyPair.ofMetadata_metadata hsound
  · intro hhalves
    obtain ⟨fault, hfault⟩ := hrefused hhalves
    rw [hfault]
    exact ⟨fault, rfl⟩

/-- Whatever document a key pair is read from, its metadata is read from it too if the halves are named, and is
refused as malformed otherwise. So is the public half read from a file that gave a key of another kind than RSA
without a password. -/
theorem private_public_agree (contents : Bytes) :
    (∀ stored, KeyPair.parse contents = .ok stored →
        (KeyPair.NamesHalves contents → Metadata.parse contents = .ok stored.metadata) ∧
          (¬ KeyPair.NamesHalves contents → ∃ fault, Metadata.parse contents = .error (.metadata fault))) ∧
      ∀ (plain : Attempt) (c : Custodian) (expected : KeyType) (k : KeyPair),
        plain.Under contents "" → expected ≠ .rsa → plain.outcome c expected = .ok k →
          (KeyPair.NamesHalves contents → (readPublic plain.path expected).runIn plain.world =
              (.ok { k.publicOnly with hashAlgorithms := none }, plain.world)) ∧
            (¬ KeyPair.NamesHalves contents → ∃ fault,
              (readPublic plain.path expected).runIn plain.world = (.error (.metadata fault), plain.world)) := by
  refine ⟨fun stored => KeyPair.parse_metadata, ?_⟩
  intro plain c expected k hplain hkind hread
  obtain ⟨text, htext, hkey⟩ := hplain.exists_text hread
  obtain rfl := Text.utf8_of_ofUtf8? htext
  have hdocument : c.keyPairOf (Text.utf8 text) expected = .ok k := by
    rw [privateKeyOf_plain hkind] at hkey
    split_ifs at hkey
    · exact hkey
  obtain ⟨hnamed, hlisted⟩ := publicKeyOf_private hkind hdocument expected.defaultScheme
  have hrun : (readPublic plain.path expected).runIn plain.world =
      (publicKeyOf text expected expected.defaultScheme, plain.world) :=
    readPublic_utf8 hplain.path_ok hplain.contents_eq _
  rw [hrun]
  refine ⟨fun h => by rw [hnamed h], fun h => ?_⟩
  obtain ⟨fault, hfault⟩ := hlisted h
  exact ⟨fault, by rw [hfault]⟩

theorem private_public_agree_exposed :
    (exposedAs "k" "").outcome default .ed25519 = .ok (default.reread .specimen) ∧
      Metadata.parse (Text.utf8 KeyPair.specimen.document) = .ok KeyPair.specimen.metadata ∧
      (readPublic ⟨"k"⟩ .ed25519).runIn exposed =
        (.ok { (default.reread .specimen).publicOnly with hashAlgorithms := none }, exposed) := by
  have hplain : (exposedAs "k" "").Under (Text.utf8 KeyPair.specimen.document) "" := ⟨by decide, rfl, rfl⟩
  have hread : (exposedAs "k" "").outcome default .ed25519 = .ok (default.reread .specimen) :=
    outcome_of_parse (k := .specimen) hplain (not_looksLike_specimen _ (KeyPair.looksLike_document _))
      (by decide) (KeyPair.parse_document .specimen) KeyPair.validate_specimen (by decide)
  obtain ⟨hdocuments, hfiles⟩ := private_public_agree (Text.utf8 KeyPair.specimen.document)
  exact ⟨hread, (hdocuments _ (KeyPair.parse_document .specimen)).1 (KeyPair.namesHalves_document _),
    (hfiles _ _ _ _ hplain (by decide) hread).1 (KeyPair.namesHalves_document _)⟩

def halvesListed : String := KeyPair.specimen.halvesListing.text

def halvesExposed : World :=
  { World.start [] [] fun _ => 0 with tree := ⟨[(["k"], .file (Text.utf8 halvesListed))]⟩ }

theorem not_looksLike_halvesListed : Envelope.looksLike halvesListed = false := by
  have hmarks : Envelope.looksLike halvesListed = true ↔ KeyPair.specimen.halvesListing.marks = 4 :=
    Value.looksLike_text (Value.trim_chars_object _)
  rw [Bool.eq_false_iff, ne_eq, hmarks]
  decide

/-- Where the halves stand as a list of both, the public one is not read by itself. -/
theorem private_public_agree_listed :
    (¬ ∀ contents stored, KeyPair.parse contents = .ok stored →
        Metadata.parse contents = .ok stored.metadata) ∧
      ¬ ∀ (plain : Attempt) (contents : Bytes) (c : Custodian) (expected : KeyType) (k : KeyPair),
        plain.Under contents "" → expected ≠ .rsa → plain.outcome c expected = .ok k →
          ∃ k', ((readPublic plain.path expected).runIn plain.world).1 = .ok k' ∧ k'.keyid = k.keyid ∧
            k'.keyval.privateHalf = "" := by
  have hparse : KeyPair.parse (Text.utf8 halvesListed) = .ok .specimen := KeyPair.specimen.parse_halvesListing
  have hnot : ¬ KeyPair.NamesHalves (Text.utf8 halvesListed) := KeyPair.not_namesHalves_halvesListing (by decide)
  constructor
  · intro hall
    obtain ⟨fault, hfault⟩ := (KeyPair.parse_metadata hparse).2 hnot
    cases hfault.symm.trans (hall _ _ hparse)
  · intro hall
    have hplain : (Attempt.mk halvesExposed ⟨"k"⟩ (some "")).Under (Text.utf8 halvesListed) "" :=
      ⟨by decide, rfl, rfl⟩
    have hread : (Attempt.mk halvesExposed ⟨"k"⟩ (some "")).outcome default .ed25519 =
        .ok (default.reread .specimen) :=
      outcome_of_parse (k := .specimen) hplain not_looksLike_halvesListed (by decide) hparse
        KeyPair.validate_specimen (by decide)
    have hdocument : (default : Custodian).keyPairOf (Text.utf8 halvesListed) .ed25519 =
        .ok (default.reread .specimen) := keyPairOf_parse (k := .specimen) hparse KeyPair.validate_specimen (by decide)
    obtain ⟨fault, hfault⟩ := (publicKeyOf_private (by decide) hdocument .ed25519).2 hnot
    obtain ⟨k', hk', -⟩ := hall _ _ _ _ _ hplain (by decide) hread
    have hrun : (readPublic ⟨"k"⟩ .ed25519).runIn halvesExposed =
        (publicKeyOf halvesListed .ed25519 .ed25519, halvesExposed) :=
      readPublic_utf8 hplain.path_ok hplain.contents_eq _
    rw [hrun, hfault] at hk'
    cases hk'

end Custodian

end KeyCustody
