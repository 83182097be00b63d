import KeyCustody.Proofs.DocumentNames
import KeyCustody.Proofs.Formats
import KeyCustody.Proofs.Marks
/-! # Needless and missing passwords

Whether a private key is encrypted is found out anew whenever its file is read: from the label of an RSA
key, and for the other kinds from the fields of an envelope if no password was given, and from the kind that
a document names if one was. A key that is read under one of the two sorts of password is put to the test of
the other one here. -/

namespace KeyCustody

variable {text password : String} {scheme scheme' : Scheme} {expected : KeyType} {k : KeyPair}

/-- A password is said to be needless or missing. -/
def Failure.IsStateMismatch (e : Failure) : Prop :=
  e.report.category = "CryptoError" ∧ e.report.code = ReportCode.encryptionStateMismatch.number

/-! ## RSA keys -/

namespace Rsa.PrivateKey

variable {key : PrivateKey}

/-- The label of a key that is read says whether a password was given. -/
theorem label_of_unlock (h : unlock text password = .ok key) :
    ∃ block, block? (Text.trim text.toList) = some block ∧
      block.label = if password = "" then privateLabel else encryptedLabel := by
  obtain ⟨block, info, hblock, hopens, -⟩ := unlock_eq_ok.mp h
  refine ⟨block, hblock, ?_⟩
  cases hopens with
  | plain hlabel => rw [hlabel, if_pos rfl]
  | encrypted hlabel hpassword => rw [hlabel, if_neg hpassword]

theorem unlock_needless {block : Pem.Block} (hblock : block? (Text.trim text.toList) = some block)
    (hlabel : block.label = privateLabel) (hpassword : password ≠ "") :
    unlock text password = .error (.needlessPassword .rsa) := by
  have hother : ¬ privateLabel = encryptedLabel := by decide
  have hformed : wellFormed .privateHalf (some block) = .ok block := rfl
  rw [unlock, hblock, hformed, Outcome.ok_bind]
  simp only [hlabel, if_neg hother, if_true, if_pos hpassword]
  rfl

theorem unlock_missing {block : Pem.Block} (hblock : block? (Text.trim text.toList) = some block)
    (hlabel : block.label = encryptedLabel) : unlock text "" = .error (.missingPassword .rsa) := by
  have hformed : wellFormed .privateHalf (some block) = .ok block := rfl
  rw [unlock, hblock, hformed, Outcome.ok_bind]
  simp only [hlabel, if_true]
  rfl

end Rsa.PrivateKey

namespace Custodian

variable {c c' : Custodian}

/-- An RSA key is read from a text that names no kind of key. -/
theorem privateKeyOf_rsa (h : c.privateKeyOf text .rsa password scheme = .ok k) :
    namedKeyType? text = none ∧ ∃ key, Rsa.PrivateKey.unlock text password = .ok key := by
  unfold privateKeyOf at h
  simp only at h
  split at h
  · cases h
  next hnone =>
    obtain ⟨key, hkey, -⟩ := Outcome.bind_eq_ok.mp h
    exact ⟨hnone, key, hkey⟩

theorem privateKeyOf_rsa_error {e : Failure} (hnone : namedKeyType? text = none)
    (h : Rsa.PrivateKey.unlock text password = .error e) (c : Custodian) (scheme : Scheme) :
    c.privateKeyOf text .rsa password scheme = .error e := by
  simp only [privateKeyOf, hnone, Rsa.readPrivate, h]
  rfl

/-- A key that is read without a password and is no RSA key stands as a document, not as an envelope. -/
theorem privateKeyOf_plain_ok (hkind : expected ≠ .rsa)
    (h : c.privateKeyOf text expected "" scheme = .ok k) :
    Envelope.looksLike text = false ∧ ∃ stored, KeyPair.parse (Text.utf8 text) = .ok stored := by
  rw [privateKeyOf_plain hkind] at h
  split_ifs at h with hlooks
  · obtain ⟨stored, hstored, -⟩ := Outcome.bind_eq_ok.mp h
    exact ⟨Bool.eq_false_iff.mpr hlooks, stored, hstored⟩

/-- A key that is read under a password and is no RSA key stands in an envelope. -/
theorem privateKeyOf_locked_ok (hkind : expected ≠ .rsa) (hpassword : password ≠ "")
    (h : c.privateKeyOf text expected password scheme = .ok k) :
    ∃ e, Envelope.decode text = .ok e := by
  rw [privateKeyOf_locked hkind hpassword] at h
  split_ifs at h
  · obtain ⟨plaintext, hunlock, -⟩ := Outcome.bind_eq_ok.mp h
    obtain ⟨e, hdecode, -⟩ := Outcome.bind_eq_ok.mp hunlock
    exact ⟨e, hdecode⟩

/-! ## Needless passwords -/

/-- The fault of a text that has not the number of fields of an envelope. -/
def fieldFault (text : String) : Failure :=
  .envelope (.fieldCount (Envelope.fields (Text.trim text.toList)).length)

theorem decode_of_looksLike (h : Envelope.looksLike text = false) :
    Envelope.decode text = .error (fieldFault text) := by
  unfold Envelope.decode fieldFault
  split
  next heq =>
    rw [Envelope.looksLike, heq] at h
    cases h
  next => rfl

/-- Under a password, a key that needs none is refused for that reason, or for not being an envelope. -/
theorem privateKeyOf_needless (h : c.privateKeyOf text expected "" scheme = .ok k)
    (hpassword : password ≠ "") (c' : Custodian) (scheme' : Scheme) :
    (expected = .rsa ∨ NamesKind text →
      c'.privateKeyOf text expected password scheme' = .error (.needlessPassword expected)) ∧
    (¬ (expected = .rsa ∨ NamesKind text) →
      c'.privateKeyOf text expected password scheme' = .error (fieldFault text)) := by
  by_cases hkind : expected = .rsa
  · subst hkind
    obtain ⟨hnone, key, hkey⟩ := privateKeyOf_rsa h
    obtain ⟨block, hblock, hlabel⟩ := Rsa.PrivateKey.label_of_unlock hkey
    refine ⟨fun _ => ?_, fun hnot => absurd (.inl rfl) hnot⟩
    exact privateKeyOf_rsa_error hnone (Rsa.PrivateKey.unlock_needless hblock hlabel hpassword) _ _
  · obtain ⟨hlooks, stored, hparse⟩ := privateKeyOf_plain_ok hkind h
    obtain ⟨hnamed, hunnamed⟩ := namedKeyType?_of_parse hparse
    refine ⟨fun hor => ?_, fun hnot => ?_⟩
    · rw [privateKeyOf_locked hkind hpassword, hnamed (hor.resolve_left hkind)]
      rfl
    · rw [privateKeyOf_locked hkind hpassword, hunnamed (not_or.mp hnot).2]
      simp only [Envelope.unlockText, decode_of_looksLike hlooks]
      rfl

theorem isStateMismatch_needless (expected : KeyType) :
    (Failure.needlessPassword expected).IsStateMismatch := ⟨rfl, rfl⟩

theorem not_isStateMismatch_fieldFault (text : String) : ¬ (fieldFault text).IsStateMismatch :=
  fun h => absurd (show "DecodeError" = "CryptoError" from h.1) (by decide)

/-- A key that is read without a password is never read under one. That its password is needless is said
of every RSA key, and of another key exactly if its document names its kind. -/
theorem read_plain_under_password {plain locked : Attempt} {contents : Bytes}
    (hplain : plain.Under contents "") (hread : plain.outcome c expected = .ok k)
    (hlocked : locked.Under contents password) (hpassword : password ≠ "") (c' : Custodian) :
    ∃ text, Text.ofUtf8? contents = some text ∧
      ((∃ e, locked.outcome c' expected = .error e ∧ e.IsStateMismatch) ↔
        expected = .rsa ∨ NamesKind text) ∧
      (locked.outcome c' expected = .error (.needlessPassword expected) ∨
        locked.outcome c' expected = .error (fieldFault text)) := by
  obtain ⟨text, htext, hkey⟩ := hplain.exists_text hread
  refine ⟨text, htext, ?_⟩
  rw [hlocked.outcome_eq htext]
  obtain ⟨hneedless, hfields⟩ := privateKeyOf_needless hkey hpassword c' expected.defaultScheme
  by_cases hcondition : expected = .rsa ∨ NamesKind text
  · rw [hneedless hcondition]
    exact ⟨⟨fun _ => hcondition, fun _ => ⟨_, rfl, isStateMismatch_needless expected⟩⟩, .inl rfl⟩
  · rw [hfields hcondition]
    refine ⟨⟨?_, fun h => absurd h hcondition⟩, .inr rfl⟩
    rintro ⟨e, he, hmismatch⟩
    cases he
    exact absurd hmismatch (not_isStateMismatch_fieldFault text)

/-- A valid key is read from its plain document, in whatever shape that stands. -/
theorem outcome_of_parse {plain : Attempt} (hplain : plain.Under (Text.utf8 text) "")
    (hlooks : Envelope.looksLike text = false) (hkind : k.keytype ≠ .rsa)
    (hparse : KeyPair.parse (Text.utf8 text) = .ok k) (hvalid : k.validate = .ok ())
    (hprivate : k.hasPrivate = true) : plain.outcome c k.keytype = .ok (c.reread k) := by
  rw [hplain.outcome_eq (Text.ofUtf8?_utf8 text), privateKeyOf_plain hkind, hlooks,
    keyPairOf_parse hparse hvalid hprivate]
  rfl

def listed : String := KeyPair.specimen.listing.text

def exposed : World :=
  { World.start [] [] fun _ => 0 with
    tree := ⟨[
      (["k"], .file (Text.utf8 KeyPair.specimen.document)),
      (["l"], .file (Text.utf8 listed))]⟩ }

theorem namedKeyType?_listing (k : KeyPair) : namedKeyType? k.listing.text = none :=
  namedKeyType?_list _

theorem not_looksLike_specimen (text : String)
    (h : Envelope.looksLike text = true ↔ KeyPair.specimen.marks = 4) :
    Envelope.looksLike text = false := by
  rw [Bool.eq_false_iff, ne_eq, h]
  decide

/-- An attempt on one of its files. -/
def exposedAs (name password : String) : Attempt := ⟨exposed, ⟨name⟩, some password⟩

theorem read_plain_under_password_exposed :
    ∃ text, (exposedAs "k" "").outcome default .ed25519 = .ok (default.reread .specimen) ∧
      Text.ofUtf8? (Text.utf8 KeyPair.specimen.document) = some text ∧
      ((∃ e, (exposedAs "k" "secret").outcome default .ed25519 = .error e ∧ e.IsStateMismatch) ↔
        KeyType.ed25519 = .rsa ∨ NamesKind text) ∧
      ((exposedAs "k" "secret").outcome default .ed25519 = .error (.needlessPassword .ed25519) ∨
        (exposedAs "k" "secret").outcome default .ed25519 = .error (fieldFault text)) := by
  have hplain : (exposedAs "k" "").Under (Text.utf8 KeyPair.specimen.document) "" :=
    ⟨by decide, rfl, rfl⟩
  have hlocked : (exposedAs "k" "secret").Under (Text.utf8 KeyPair.specimen.document) "secret" :=
    ⟨by decide, rfl, rfl⟩
  have hread : (exposedAs "k" "").outcome default .ed25519 = .ok (default.reread .specimen) :=
    outcome_of_parse (k := .specimen) hplain (not_looksLike_specimen _ (KeyPair.looksLike_document _))
      (by decide) (KeyPair.parse_document .specimen) KeyPair.validate_specimen (by decide)
  obtain ⟨text, h⟩ := read_plain_under_password hplain hread hlocked (by decide) default
  exact ⟨text, hread, h⟩

/-- A document that stands as a list names no kind where one is looked for. -/
theorem read_plain_under_password_listed :
    ¬ ∀ (plain locked : Attempt) (contents : Bytes) (password : String) (c : Custodian)
      (expected : KeyType) (k : KeyPair), plain.Under contents "" →
        plain.outcome c expected = .ok k → locked.Under contents password → password ≠ "" →
          ∃ e, locked.outcome c expected = .error e ∧ e.IsStateMismatch := by
  intro hall
  have hplain : (exposedAs "l" "").Under (Text.utf8 listed) "" := ⟨by decide, rfl, rfl⟩
  have hlocked : (exposedAs "l" "secret").Under (Text.utf8 listed) "secret" := ⟨by decide, rfl, rfl⟩
  have hlooks : Envelope.looksLike listed = false :=
    not_looksLike_specimen _ (KeyPair.looksLike_listing _)
  have hread : (exposedAs "l" "").outcome default .ed25519 = .ok (default.reread .specimen) :=
    outcome_of_parse (k := .specimen) hplain hlooks (by decide) (KeyPair.parse_listing .specimen)
      KeyPair.validate_specimen (by decide)
  have hfields : (exposedAs "l" "secret").outcome default .ed25519 = .error (fieldFault listed) := by
    have hunnamed : namedKeyType? listed = none := namedKeyType?_listing .specimen
    rw [hlocked.outcome_eq (Text.ofUtf8?_utf8 listed), privateKeyOf_locked (by decide) (by decide),
      hunnamed]
    simp only [Envelope.unlockText, decode_of_looksLike hlooks]
    rfl
  obtain ⟨e, he, hmismatch⟩ := hall _ _ _ _ _ _ _ hplain hread hlocked (by decide)
  rw [hfields] at he
  cases he
  exact not_isStateMismatch_fieldFault listed hmismatch

/-! ## Missing passwords -/

theorem isStateMismatch_missing (expected : KeyType) :
    (Failure.missingPassword expected).IsStateMismatch := ⟨rfl, rfl⟩

/-- Without a password, a key that is read under one is refused for lack of it. -/
theorem privateKeyOf_missing (h : c.privateKeyOf text expected password scheme = .ok k)
    (hpassword : password ≠ "") (c' : Custodian) (scheme' : Scheme) :
    c'.privateKeyOf text expected "" scheme' = .error (.missingPassword expected) := by
  by_cases hkind : expected = .rsa
  · subst hkind
    obtain ⟨hnone, key, hkey⟩ := privateKeyOf_rsa h
    obtain ⟨block, hblock, hlabel⟩ := Rsa.PrivateKey.label_of_unlock hkey
    rw [if_neg hpassword] at hlabel
    exact privateKeyOf_rsa_error hnone (Rsa.PrivateKey.unlock_missing hblock hlabel) _ _
  · obtain ⟨e, hdecode⟩ := privateKeyOf_locked_ok hkind hpassword h
    rw [privateKeyOf_plain hkind, if_pos (Envelope.looksLike_of_decode hdecode)]

theorem privateKeyOf_plain_ne_ok (h : c.privateKeyOf text expected password scheme = .ok k)
    (hpassword : password ≠ "") (c' : Custodian) (expected' : KeyType) (k' : KeyPair) :
    c'.privateKeyOf text expected' "" scheme' ≠ .ok k' := by
  intro h'
  by_cases hkind : expected = .rsa
  · subst hkind
    by_cases hkind' : expected' = .rsa
    · subst hkind'
      rw [privateKeyOf_missing h hpassword] at h'
      cases h'
    · obtain ⟨-, key, hkey⟩ := privateKeyOf_rsa h
      obtain ⟨block, hblock, -⟩ := Rsa.PrivateKey.label_of_unlock hkey
      obtain ⟨-, stored, hparse⟩ := privateKeyOf_plain_ok hkind' h'
      exact KeyPair.not_dashedLine_of_parse hparse
        ((Rsa.dashedLine_of_block? hblock).mono (Text.trim_isInfix _))
  · obtain ⟨e, hdecode⟩ := privateKeyOf_locked_ok hkind hpassword h
    by_cases hkind' : expected' = .rsa
    · subst hkind'
      obtain ⟨-, key, hkey⟩ := privateKeyOf_rsa h'
      obtain ⟨block, hblock, -⟩ := Rsa.PrivateKey.label_of_unlock hkey
      exact Envelope.notMem_of_decode hdecode (Rsa.dashedLine_of_block? hblock).mem
    · obtain ⟨hlooks, -⟩ := privateKeyOf_plain_ok hkind' h'
      rw [Envelope.looksLike_of_decode hdecode] at hlooks
      cases hlooks

/-- A key that is read under a password is never read without one, whatever kind of key is expected. For
its own kind, the password is said to be missing. -/
theorem read_locked_without_password {plain locked : Attempt} {contents : Bytes}
    (hlocked : locked.Under contents password) (hpassword : password ≠ "")
    (hread : locked.outcome c expected = .ok k) (hplain : plain.Under contents "") (c' : Custodian) :
    (∃ e, plain.outcome c' expected = .error e ∧ e.IsStateMismatch ∧ e = .missingPassword expected) ∧
      ∀ expected' k', plain.outcome c' expected' ≠ .ok k' := by
  obtain ⟨text, htext, hkey⟩ := hlocked.exists_text hread
  refine ⟨⟨.missingPassword expected, ?_, isStateMismatch_missing expected, rfl⟩, fun expected' k' => ?_⟩
  · rw [hplain.outcome_eq htext, privateKeyOf_missing hkey hpassword]
  · rw [hplain.outcome_eq htext]
    exact privateKeyOf_plain_ne_ok hkey hpassword c' expected' k'

theorem read_locked_without_password_guarded :
    ∃ k, (Attempt.mk guarded ⟨"r"⟩ (some "secret")).outcome strict .rsa = .ok k ∧
      (∃ e, (Attempt.mk guarded ⟨"r"⟩ (some "")).outcome default .rsa = .error e ∧ e.IsStateMismatch ∧
        e = .missingPassword .rsa) ∧
      ∀ expected' k', (Attempt.mk guarded ⟨"r"⟩ (some "")).outcome default expected' ≠ .ok k' := by
  obtain ⟨k, hread⟩ := readPrivate_guarded
  have hlocked : (Attempt.mk guarded ⟨"r"⟩ (some "secret")).Under (Text.utf8 toyText) "secret" :=
    ⟨by decide, read_guarded, rfl⟩
  have hplain : (Attempt.mk guarded ⟨"r"⟩ (some "")).Under (Text.utf8 toyText) "" :=
    ⟨by decide, read_guarded, rfl⟩
  have hok : (Attempt.mk guarded ⟨"r"⟩ (some "secret")).outcome strict .rsa = .ok k :=
    Attempt.outcome_of_run hread
  exact ⟨k, hok, read_locked_without_password hlocked (by decide) hok hplain default⟩

end Custodian

end KeyCustody
