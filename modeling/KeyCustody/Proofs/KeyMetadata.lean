import KeyCustody.Proofs.JsonSkipping
import KeyCustody.Proofs.KeyDocument
/-! # What documents keep of a key pair

The document of a key pair keeps all of it, and the document of its metadata the public part. The same
public part is read out of the document of the key pair, in which the identifier, its hash algorithms and
the private half are members that nobody asks for. -/

namespace KeyCustody

open Json

theorem Json.skips_string (s : String) : Reads Skipped.value (.string s) () :=
  (reads_string s).skipped (takesValue_stringAs _)

theorem HashAlgorithm.skips_names (algorithms : List HashAlgorithm) :
    Reads Skipped.value (.list (algorithms.map fun a => .string a.name)) () :=
  (reads_listOf (readsAll_map HashAlgorithm.reads_name algorithms)).skipped
    (takesValue_listOf (takesValue_oneOf _))

/-- The public half is read out of both halves. -/
theorem KeyVal.reads_publicHalf (v : KeyVal) : Reads KeyVal.publicLayout.read v.json v.publicHalf := by
  obtain ⟨publicHalf, privateHalf⟩ := v
  unfold KeyVal.json
  refine Layout.reads_object (d := some publicHalf)
    (.cons rfl rfl (reads_field (reads_string _) _) ?_) rfl
  split_ifs
  · exact .nil _
  · exact .skip rfl (skips_string _) (.nil _)

/-- Metadata is read out of a key pair. -/
theorem KeyPair.reads_metadata (k : KeyPair) : Reads Metadata.layout.read k.json k.metadata := by
  obtain ⟨keytype, scheme, keyid, hashAlgorithms, keyval⟩ := k
  refine Layout.reads_object (d := ⟨some keytype, some scheme, some keyval.publicHalf⟩) ?_ rfl
  refine .cons rfl rfl (reads_field keytype.reads_name _)
    (.cons rfl rfl (reads_field scheme.reads_name _) (.skip rfl (skips_string _) ?_))
  have hkeyval : Layout.Fills Metadata.layout ⟨some keytype, some scheme, none⟩ [("keyval", keyval.json)]
      ⟨some keytype, some scheme, some keyval.publicHalf⟩ :=
    .cons rfl rfl (reads_field keyval.reads_publicHalf _) (.nil _)
  cases hashAlgorithms with
  | none => exact hkeyval
  | some algorithms => exact .skip rfl (HashAlgorithm.skips_names algorithms) hkeyval

theorem KeyPair.metadata_of_document (k : KeyPair) :
    Metadata.parse (Text.utf8 k.document) = .ok k.metadata := by
  rw [Metadata.parse, KeyPair.document, whole_text k.reads_metadata]
  rfl

/-- Whatever texts a key pair holds and whichever hash algorithms are attached to it, its document is read
as that key pair, the document of its metadata as that metadata, and so is its own document when it is
asked for metadata. -/
theorem KeyPair.documents_kept (k : KeyPair) :
    KeyPair.parse (Text.utf8 k.document) = .ok k ∧
      Metadata.parse (Text.utf8 k.metadata.document) = .ok k.metadata ∧
      Metadata.parse (Text.utf8 k.document) = .ok k.metadata :=
  ⟨k.parse_document, k.metadata.parse_document, k.metadata_of_document⟩

end KeyCustody
