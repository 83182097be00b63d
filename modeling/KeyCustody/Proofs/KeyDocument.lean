import KeyCustody.Key.Pair
import KeyCustody.Proofs.JsonRecord
/-! # Documents of key pairs there and back

The document of a key pair is read as that key pair, whatever texts it holds, and the document of
metadata as that metadata. The list of the fields of a key pair is read as that key pair too. -/

namespace KeyCustody

open Json

/-! ## Fields -/

theorem Json.reads_field {Draft α : Type} {name : String} {get : Draft → Option α}
    {reader : Reader α} {set : Draft → α → Draft} {v : Value} {x : α} (h : Reads reader v x)
    (d : Draft) : Reads ((Field.of name get reader set).fill d) v (set d x) := by
  intro rest
  simp only [Field.of, h rest, bind, Except.bind]
  rfl

theorem KeyType.reads_name (t : KeyType) : Reads KeyType.reader (.string t.name) t :=
  reads_oneOf (by cases t <;> rfl)

theorem Scheme.reads_name (s : Scheme) : Reads Scheme.reader (.string s.name) s :=
  reads_oneOf (by cases s <;> rfl)

theorem HashAlgorithm.reads_name (a : HashAlgorithm) :
    Reads HashAlgorithm.reader (.string a.name) a :=
  reads_oneOf (by cases a <;> rfl)

/-! ## Key pairs -/

theorem KeyVal.reads_json (v : KeyVal) : Reads KeyVal.layout.read v.json v := by
  obtain ⟨publicHalf, privateHalf⟩ := v
  unfold KeyVal.json
  split_ifs with hempty
  · refine Layout.reads_object (d := ⟨some publicHalf, none⟩) ?_ ?_
    · exact .cons rfl rfl (reads_field (reads_string _) _) (.nil _)
    · simp only at hempty
      rw [hempty]
      rfl
  · refine Layout.reads_object (d := ⟨some publicHalf, some privateHalf⟩) ?_ rfl
    exact .cons rfl rfl (reads_field (reads_string _) _)
      (.cons rfl rfl (reads_field (reads_string _) _) (.nil _))

theorem KeyPair.reads_json (k : KeyPair) : Reads KeyPair.layout.read k.json k := by
  obtain ⟨keytype, scheme, keyid, hashAlgorithms, keyval⟩ := k
  cases hashAlgorithms with
  | none =>
    refine Layout.reads_object
      (d := ⟨some keytype, some scheme, some keyid, none, some keyval⟩) ?_ rfl
    exact .cons rfl rfl (reads_field keytype.reads_name _)
      (.cons rfl rfl (reads_field scheme.reads_name _)
      (.cons rfl rfl (reads_field (reads_string _) _)
      (.cons rfl rfl (reads_field keyval.reads_json _) (.nil _))))
  | some algorithms =>
    refine Layout.reads_object
      (d := ⟨some keytype, some scheme, some keyid, some (some algorithms), some keyval⟩) ?_ rfl
    exact .cons rfl rfl (reads_field keytype.reads_name _)
      (.cons rfl rfl (reads_field scheme.reads_name _)
      (.cons rfl rfl (reads_field (reads_string _) _)
      (.cons rfl rfl (reads_field (reads_optional_list
        (reads_listOf (readsAll_map HashAlgorithm.reads_name algorithms))) _)
      (.cons rfl rfl (reads_field keyval.reads_json _) (.nil _)))))

theorem Json.utf8_text (v : Value) : Text.utf8 v.text = Text.bytes v.chars := by
  rw [Text.utf8_eq_bytes, Value.text, String.toList_ofList]

theorem Json.whole_text {α : Type} {reader : Reader α} {v : Value} {x : α} (h : Reads reader v x) :
    whole reader (Text.utf8 v.text) = .ok x := by
  have hread := h []
  rw [List.append_nil] at hread
  simp only [whole, utf8_text, hread, bind, Except.bind]
  rfl

theorem KeyPair.parse_document (k : KeyPair) : KeyPair.parse (Text.utf8 k.document) = .ok k := by
  rw [KeyPair.parse, KeyPair.document, whole_text k.reads_json]
  rfl

/-! ## Key pairs as lists -/

def KeyVal.listing (v : KeyVal) : Value := .list [.string v.publicHalf, .string v.privateHalf]

theorem KeyVal.reads_listing (v : KeyVal) : Reads KeyVal.layout.read v.listing v :=
  Layout.reads_list (d := ⟨some v.publicHalf, some v.privateHalf⟩)
    (.cons (opens_string _) (reads_field (reads_string _) _)
      (.cons (opens_string _) (reads_field (reads_string _) _) (.nil _ _))) rfl

def KeyPair.listing (k : KeyPair) : Value :=
  .list [.string k.keytype.name, .string k.scheme.name, .string k.keyid,
    match k.hashAlgorithms with
    | some algorithms => .list (algorithms.map fun a => .string a.name)
    | none => .null,
    k.keyval.listing]

theorem KeyPair.reads_listing (k : KeyPair) : Reads KeyPair.layout.read k.listing k := by
  obtain ⟨keytype, scheme, keyid, hashAlgorithms, keyval⟩ := k
  refine Layout.reads_list
    (d := ⟨some keytype, some scheme, some keyid, some hashAlgorithms, some keyval⟩) ?_ rfl
  refine .cons (opens_string _) (reads_field keytype.reads_name _)
    (.cons (opens_string _) (reads_field scheme.reads_name _)
    (.cons (opens_string _) (reads_field (reads_string _) _)
    (.cons ?_ (reads_field ?_ _)
    (.cons (opens_list _) (reads_field keyval.reads_listing _) (.nil _ _)))))
  · cases hashAlgorithms with
    | none => exact opens_null
    | some algorithms => exact opens_list _
  · cases hashAlgorithms with
    | none => exact reads_optional_null _
    | some algorithms =>
      exact reads_optional_list (reads_listOf (readsAll_map HashAlgorithm.reads_name algorithms))

/-- A key pair is also read from the list of its fields. -/
theorem KeyPair.parse_listing (k : KeyPair) : KeyPair.parse (Text.utf8 k.listing.text) = .ok k := by
  rw [KeyPair.parse, whole_text k.reads_listing]
  rfl

/-! ## Metadata -/

theorem KeyVal.reads_published (half : String) :
    Reads KeyVal.publicLayout.read (.object [("public", .string half)]) half :=
  Layout.reads_object (d := some half) (.cons rfl rfl (reads_field (reads_string _) _) (.nil _)) rfl

theorem Metadata.reads_json (m : Metadata) : Reads Metadata.layout.read m.json m := by
  obtain ⟨keytype, scheme, publicHalf⟩ := m
  refine Layout.reads_object (d := ⟨some keytype, some scheme, some publicHalf⟩) ?_ rfl
  exact .cons rfl rfl (reads_field keytype.reads_name _)
    (.cons rfl rfl (reads_field scheme.reads_name _)
    (.cons rfl rfl (reads_field (KeyVal.reads_published publicHalf) _) (.nil _)))

theorem Metadata.parse_document (m : Metadata) :
    Metadata.parse (Text.utf8 m.document) = .ok m := by
  rw [Metadata.parse, Metadata.document, whole_text m.reads_json]
  rfl

def Metadata.listing (m : Metadata) : Value :=
  .list [.string m.keytype.name, .string m.scheme.name, .list [.string m.publicHalf]]

theorem Metadata.reads_listing (m : Metadata) : Reads Metadata.layout.read m.listing m := by
  obtain ⟨keytype, scheme, publicHalf⟩ := m
  have hkeyval : Reads KeyVal.publicLayout.read (.list [.string publicHalf]) publicHalf :=
    Layout.reads_list (d := some publicHalf)
      (.cons (opens_string _) (reads_field (reads_string _) _) (.nil _ _)) rfl
  refine Layout.reads_list (d := ⟨some keytype, some scheme, some publicHalf⟩) ?_ rfl
  exact .cons (opens_string _) (reads_field keytype.reads_name _)
    (.cons (opens_string _) (reads_field scheme.reads_name _)
    (.cons (opens_list _) (reads_field hkeyval _) (.nil _ _)))

/-- Metadata is also read from the list of its fields. -/
theorem Metadata.parse_listing (m : Metadata) : Metadata.parse (Text.utf8 m.listing.text) = .ok m := by
  rw [Metadata.parse, whole_text m.reads_listing]
  rfl

end KeyCustody
