import KeyCustody.Proofs.JsonText
import KeyCustody.Proofs.KeyPair
import KeyCustody.Proofs.RecordReaders
/-! # The kind that a document names

A private document is read as a key pair, and it is looked at as any JSON value to find the kind of key
that it names. The second reading sees less: it looks at objects only, and at names that stand as strings.
Where it does find a name, that is the kind of the key pair. -/

namespace KeyCustody

open Json

/-! ## Starts of texts -/

namespace Text

theorem toNat_ofNat_short {c : Char} (hc : c.toNat < 128) : (UInt8.ofNat c.toNat).toNat = c.toNat := by
  rw [UInt8.toNat_ofNat', Nat.mod_eq_of_lt (by omega)]

theorem isBlank_of_byte {c : Char} (hc : c.toNat < 128)
    (h : Json.isBlank (UInt8.ofNat c.toNat) = true) : isBlank c = true := by
  have hbyte : ∀ b : UInt8, UInt8.ofNat c.toNat = b → c.toNat = b.toNat := by
    rintro b rfl
    exact (toNat_ofNat_short hc).symm
  simp only [Json.isBlank, Bool.or_eq_true, beq_iff_eq] at h
  have hn : c.toNat = 0x20 ∨ c.toNat = 0x0A ∨ c.toNat = 0x09 ∨ c.toNat = 0x0D := by
    rcases h with ((h | h) | h) | h
    · exact .inl (hbyte _ h)
    · exact .inr (.inl (hbyte _ h))
    · exact .inr (.inr (.inl (hbyte _ h)))
    · exact .inr (.inr (.inr (hbyte _ h)))
  simp only [isBlank, Bool.or_eq_true, Bool.and_eq_true, decide_eq_true_eq, beq_iff_eq]
  omega

theorem head?_dropWhile {cs : List Char} {c : Char} {rest : Bytes} (hc : c.toNat < 128)
    (hblank : isBlank c = false)
    (h : skipBlanks (cs.flatMap String.utf8EncodeChar) = UInt8.ofNat c.toNat :: rest) :
    (cs.dropWhile isBlank).head? = some c := by
  induction cs with
  | nil => cases h
  | cons d cs ih =>
    rw [List.flatMap_cons] at h
    by_cases hd : d.toNat < 128
    · rw [utf8EncodeChar_of_lt hd, List.singleton_append, skipBlanks] at h
      by_cases hbyte : Json.isBlank (UInt8.ofNat d.toNat) = true
      · rw [List.dropWhile_cons_of_pos hbyte] at h
        rw [List.dropWhile_cons_of_pos (isBlank_of_byte hd hbyte)]
        exact ih h
      · rw [List.dropWhile_cons_of_neg hbyte] at h
        obtain rfl : d = c := by
          have hn := congrArg UInt8.toNat (List.cons.inj h).1
          rw [toNat_ofNat_short hd, toNat_ofNat_short hc] at hn
          exact Char.toNat_inj.mp hn
        rw [List.dropWhile_cons_of_neg (Bool.eq_false_iff.mp hblank)]
        rfl
    · obtain ⟨b, bs, hb⟩ := List.exists_cons_of_ne_nil (String.utf8EncodeChar_ne_nil (c := d))
      have hle : 128 ≤ b.toNat := le_of_mem_utf8EncodeChar hd (hb ▸ List.mem_cons_self)
      have hbyte : ¬ Json.isBlank b = true := by
        intro hbyte
        simp only [Json.isBlank, Bool.or_eq_true, beq_iff_eq] at hbyte
        rcases hbyte with ((rfl | rfl) | rfl) | rfl <;> exact absurd hle (by decide)
      rw [hb, List.cons_append, skipBlanks, List.dropWhile_cons_of_neg hbyte] at h
      have hn := congrArg UInt8.toNat (List.cons.inj h).1
      rw [toNat_ofNat_short hc] at hn
      omega

end Text

theorem Json.Layout.bracket_of_whole {Draft Record : Type} {layout : Layout Draft Record}
    {record : Record} {text : String} (h : whole layout.read (Text.utf8 text) = .ok record) :
    '\x7b' ∈ text.toList ∨ '[' ∈ text.toList := by
  have hmem : ∀ c rest, c.toNat < 128 → Text.isBlank c = false →
      skipBlanks (Text.utf8 text) = UInt8.ofNat c.toNat :: rest → c ∈ text.toList :=
    fun c rest hc hblank hbs => (List.dropWhile_sublist _).mem
      (List.mem_of_head? (Text.head?_dropWhile hc hblank hbs))
  obtain ⟨rest, hread, -⟩ := whole_eq_ok.mp h
  obtain ⟨b, r, hbs, hread⟩ := byFirst_eq_ok.mp hread
  split_ifs at hread with hbrace hbracket
  · exact .inl (hmem '\x7b' r (by decide) (by decide) (hbs.trans (by rw [hbrace]; rfl)))
  · exact .inr (hmem '[' r (by decide) (by decide) (hbs.trans (by rw [hbracket]; rfl)))
  · exact absurd hread (unexpected_ne_ok _ _ _)

/-! ## Fields -/

theorem KeyVal.fieldsTakeValues : KeyVal.layout.FieldsTakeValues := by
  intro field hfield d
  simp only [KeyVal.layout, List.mem_cons, List.not_mem_nil, or_false] at hfield
  rcases hfield with rfl | rfl
  · exact takesValue_field (takesValue_stringAs _) _ d
  · exact takesValue_field (takesValue_stringAs _) _ d

theorem KeyVal.publicFieldsTakeValues : KeyVal.publicLayout.FieldsTakeValues := by
  intro field hfield d
  rw [KeyVal.publicLayout, List.mem_singleton] at hfield
  subst hfield
  exact takesValue_field (takesValue_stringAs _) _ d

/-- Records that hold the kind of a key: one field reads it, and no other one changes it. -/
structure Json.Layout.HoldsKind {Draft Record : Type} (layout : Layout Draft Record)
    (drafted : Draft → Option KeyType) (kind : Record → KeyType) : Prop where
  takeValues : layout.FieldsTakeValues
  named : ∃ field ∈ layout.fields, field.name = "keytype"
  empty : drafted layout.empty = none
  build : ∀ {d : Draft} {record : Record}, layout.build d = .ok record → drafted d = some (kind record)
  fill : ∀ {field : Json.Field Draft} {d d' : Draft} {bs rest : Bytes}, field ∈ layout.fields →
    field.fill d bs = .ok (d', rest) →
      (field.name = "keytype" ∧ field.isFilled d = (drafted d).isSome ∧
        ∃ t, KeyType.reader bs = .ok (t, rest) ∧ drafted d' = some t) ∨
      (field.name ≠ "keytype" ∧ drafted d' = drafted d)

namespace KeyPair

theorem fieldsTakeValues : layout.FieldsTakeValues := by
  intro field hfield d
  simp only [layout, List.mem_cons, List.not_mem_nil, or_false] at hfield
  rcases hfield with rfl | rfl | rfl | rfl | rfl
  · exact takesValue_field (takesValue_oneOf _) _ d
  · exact takesValue_field (takesValue_oneOf _) _ d
  · exact takesValue_field (takesValue_stringAs _) _ d
  · exact takesValue_field (takesValue_optional (takesValue_listOf (takesValue_oneOf _))) _ d
  · exact takesValue_field (Layout.takesValue_read KeyVal.fieldsTakeValues) _ d

theorem Draft.keytype_of_build {d : Draft} {k : KeyPair} (h : d.build = .ok k) :
    d.keytype = some k.keytype := by
  obtain ⟨_ | keytype, _ | scheme, _ | keyid, hashAlgorithms, _ | keyval⟩ := d
  all_goals cases h
  rfl

theorem holdsKind : layout.HoldsKind Draft.keytype KeyPair.keytype where
  takeValues := fieldsTakeValues
  named := ⟨_, List.mem_cons_self, rfl⟩
  empty := rfl
  build h := Draft.keytype_of_build h
  fill hfield hfill := by
    simp only [layout, List.mem_cons, List.not_mem_nil, or_false] at hfield
    rcases hfield with rfl | rfl | rfl | rfl | rfl
    · obtain ⟨⟨t, r⟩, hread, h⟩ := bind_eq_ok.mp hfill
      cases h
      exact .inl ⟨rfl, rfl, t, hread, rfl⟩
    all_goals
      obtain ⟨⟨y, r⟩, -, h⟩ := bind_eq_ok.mp hfill
      cases h
      exact .inr ⟨by decide, rfl⟩

end KeyPair

namespace Metadata

theorem fieldsTakeValues : layout.FieldsTakeValues := by
  intro field hfield d
  simp only [layout, List.mem_cons, List.not_mem_nil, or_false] at hfield
  rcases hfield with rfl | rfl | rfl
  · exact takesValue_field (takesValue_oneOf _) _ d
  · exact takesValue_field (takesValue_oneOf _) _ d
  · exact takesValue_field (Layout.takesValue_read KeyVal.publicFieldsTakeValues) _ d

theorem Draft.keytype_of_build {d : Draft} {m : Metadata} (h : d.build = .ok m) :
    d.keytype = some m.keytype := by
  obtain ⟨_ | keytype, _ | scheme, _ | publicHalf⟩ := d
  all_goals cases h
  rfl

theorem holdsKind : layout.HoldsKind Draft.keytype Metadata.keytype where
  takeValues := fieldsTakeValues
  named := ⟨_, List.mem_cons_self, rfl⟩
  empty := rfl
  build h := Draft.keytype_of_build h
  fill hfield hfill := by
    simp only [layout, List.mem_cons, List.not_mem_nil, or_false] at hfield
    rcases hfield with rfl | rfl | rfl
    · obtain ⟨⟨t, r⟩, hread, h⟩ := bind_eq_ok.mp hfill
      cases h
      exact .inl ⟨rfl, rfl, t, hread, rfl⟩
    all_goals
      obtain ⟨⟨y, r⟩, -, h⟩ := bind_eq_ok.mp hfill
      cases h
      exact .inr ⟨by decide, rfl⟩

end Metadata

theorem Json.member?_cons (k key : String) (v : Value) (ms : List (String × Value)) :
    (Value.object ((key, v) :: ms)).member? k =
      ((Value.object ms).member? k).or (if k = key then some v else none) := by
  simp only [Value.member?, List.reverse_cons, List.lookup_append, List.lookup_cons, List.lookup_nil]
  by_cases h : k = key
  · rw [if_pos h, beq_iff_eq.mpr h]
  · rw [if_neg h, beq_eq_false_iff_ne.mpr h]

theorem KeyType.name_of_reader {t : KeyType} {depth : Nat} {name : String} {bs r rest : Bytes}
    (h : KeyType.reader bs = .ok (t, rest)) (hstring : Value.read depth bs = .ok (.string name, r)) :
    t.name = name := by
  obtain ⟨before, after, hall, -⟩ := List.lookup_eq_some_iff.mp (lookup_of_oneOf h hstring)
  have hmem : (name, t) ∈ KeyType.all.map fun t => (t.name, t) := by
    rw [hall]
    exact List.mem_append_right _ List.mem_cons_self
  obtain ⟨t', -, heq⟩ := List.mem_map.mp hmem
  cases heq
  rfl

/-! ## Names of kinds -/

/-- As any JSON value, a text is an object whose last member `keytype` is a string. -/
def NamesKind (text : String) : Prop :=
  ∃ value name, Value.parse (Text.utf8 text) = .ok value ∧ value.member? "keytype" = some (.string name)

namespace Json.Layout.HoldsKind

variable {Draft Record : Type} {layout : Layout Draft Record} {drafted : Draft → Option KeyType}
  {kind : Record → KeyType} {record : Record} {text : String}

/-- A name of the kind among the members of a document is the one that the draft was filled by. Once the
kind is known, it is not named again. -/
theorem drafted_of_gathers (hkind : layout.HoldsKind drafted kind) {d d' : Draft}
    {ms : List (String × Value)} (h : layout.Gathers d ms d') :
    (∀ t, drafted d = some t → drafted d' = some t ∧ (Value.object ms).member? "keytype" = none) ∧
      (drafted d = none → ∀ name, (Value.object ms).member? "keytype" = some (.string name) →
        ∃ t, drafted d' = some t ∧ t.name = name) := by
  -- both parts at once: that the kind is named once is what makes its last name its first
  induction h with
  | nil d => exact ⟨fun t ht => ⟨ht, rfl⟩, fun _ name hname => nomatch hname⟩
  | @skip d d' key v ms hfield _ ih =>
    have hkey : "keytype" ≠ key := by
      rintro rfl
      obtain ⟨field, hmem, hname⟩ := hkind.named
      exact List.find?_eq_none.mp hfield field hmem (beq_iff_eq.mpr hname)
    simp only [member?_cons, if_neg hkey, Option.or_none]
    exact ih
  | @fill d d₁ d' key v ms field depth bs rest hfield hempty hvalue hfill _ ih =>
    have hname : field.name = key := by simpa using List.find?_some hfield
    obtain ⟨hnamed, hfilled, t, hread, hd₁⟩ | ⟨hother, hd₁⟩ :=
      hkind.fill (List.mem_of_find?_eq_some hfield) hfill
    · obtain ⟨hd', hnone⟩ := ih.1 t hd₁
      have hunset : drafted d = none := by
        rw [hempty] at hfilled
        exact Option.not_isSome_iff_eq_none.mp (Bool.eq_false_iff.mp hfilled.symm)
      refine ⟨fun t' ht' => ?_, fun _ name hlookup => ?_⟩
      · rw [hunset] at ht'
        cases ht'
      · rw [member?_cons, hnone, Option.none_or, if_pos (hnamed.symm.trans hname)] at hlookup
        cases hlookup
        exact ⟨t, hd', KeyType.name_of_reader hread hvalue⟩
    · have hkey : "keytype" ≠ key := fun h => hother (hname.trans h.symm)
      simp only [member?_cons, if_neg hkey, Option.or_none]
      rw [← hd₁]
      exact ih

theorem name_of_whole (hkind : layout.HoldsKind drafted kind) {value : Value} {name : String}
    (hrecord : whole layout.read (Text.utf8 text) = .ok record)
    (hvalue : Value.parse (Text.utf8 text) = .ok value)
    (hname : value.member? "keytype" = some (.string name)) :
    (kind record).name = name ∧ (text.toList.dropWhile Text.isBlank).head? = some '{' := by
  obtain ⟨rest, hread, -⟩ := whole_eq_ok.mp hrecord
  obtain ⟨rest', hvalue, -⟩ := whole_eq_ok.mp hvalue
  cases value with
  | object ms =>
    obtain ⟨d, hgathers, hbuild⟩ := Layout.gathers_of_read hkind.takeValues hread hvalue
    obtain ⟨t, ht, rfl⟩ := (hkind.drafted_of_gathers hgathers).2 hkind.empty name hname
    refine ⟨?_, ?_⟩
    · rw [hkind.build hbuild] at ht
      cases ht
      rfl
    · obtain ⟨-, r, -, hbs, -⟩ := Value.read_object hvalue
      exact Text.head?_dropWhile (by decide) (by decide) hbs
  | _ => cases hname

/-- The kind that a record's document names is found, and it is the kind in the record. -/
theorem namedKeyType?_of_whole (hkind : layout.HoldsKind drafted kind)
    (hrecord : whole layout.read (Text.utf8 text) = .ok record) :
    (NamesKind text → namedKeyType? text = some (kind record)) ∧
      (¬ NamesKind text → namedKeyType? text = none) := by
  refine ⟨?_, fun hnot => ?_⟩
  · rintro ⟨value, name, hvalue, hname⟩
    obtain ⟨rfl, hbrace⟩ := hkind.name_of_whole hrecord hvalue hname
    simp [namedKeyType?, hbrace, hvalue, hname, Except.toOption]
  · cases hkind : namedKeyType? text with
    | none => rfl
    | some t =>
      unfold namedKeyType? at hkind
      split_ifs at hkind
      · cases hkind
      · obtain ⟨value, hvalue, hkind⟩ := Option.bind_eq_some_iff.mp hkind
        split at hkind
        next name hname =>
          refine absurd ⟨value, name, ?_, hname⟩ hnot
          cases hparsed : Value.parse (Text.utf8 text) with
          | error fault => rw [hparsed] at hvalue; cases hvalue
          | ok v =>
            rw [hparsed] at hvalue
            cases hvalue
            rfl
        next => cases hkind

end Json.Layout.HoldsKind

theorem namedKeyType?_of_parse {text : String} {k : KeyPair}
    (hparse : KeyPair.parse (Text.utf8 text) = .ok k) :
    (NamesKind text → namedKeyType? text = some k.keytype) ∧
      (¬ NamesKind text → namedKeyType? text = none) := by
  unfold KeyPair.parse at hparse
  exact KeyPair.holdsKind.namedKeyType?_of_whole (mapError_eq_ok.mp hparse)

theorem Metadata.namedKeyType?_of_parse {text : String} {m : Metadata}
    (hparse : Metadata.parse (Text.utf8 text) = .ok m) :
    (NamesKind text → namedKeyType? text = some m.keytype) ∧
      (¬ NamesKind text → namedKeyType? text = none) := by
  unfold Metadata.parse at hparse
  exact Metadata.holdsKind.namedKeyType?_of_whole (mapError_eq_ok.mp hparse)

end KeyCustody
