import KeyCustody.Proofs.JsonNumerals
import KeyCustody.Proofs.RecordMembers
import KeyCustody.Settings
/-! # Documents of settings

A settings document names some fields, in any order. It is read as the defaults with those fields replaced, and
refused if that is refused: a document of acceptable values is not acceptable where a default contradicts one of
them. The document of all fields of acceptable settings is read as those settings. -/

namespace KeyCustody

open Json

theorem HashAlgorithm.obtains_name (a : HashAlgorithm) :
    Obtains HashAlgorithm.reader (.string a.name) a :=
  obtains_oneOf (by cases a <;> rfl)

namespace Settings

inductive Part where
  | hashAlgorithms
  | iterations
  | maxIterations
  | rsaMinBits
  | rsaMaxBits
  | rsaDefaultBits
  | maxPasswordAttempts
deriving DecidableEq, Repr

/-- All fields, in the order in which a document has them. -/
def Part.all : List Part :=
  [hashAlgorithms, iterations, maxIterations, rsaMinBits, rsaMaxBits, rsaDefaultBits, maxPasswordAttempts]

def member (s : Settings) : Part → String × Value
  | .hashAlgorithms => ("hash_algorithms", .list (s.hashAlgorithms.map fun a => .string a.name))
  | .iterations => ("pbkdf2_iterations", .number (.natural s.iterations.toNat))
  | .maxIterations => ("max_pbkdf2_iterations", .number (.natural s.maxIterations.toNat))
  | .rsaMinBits => ("rsa_min_bits", .number (.natural s.rsaMinBits.toNat))
  | .rsaMaxBits =>
    ("rsa_max_bits", (s.rsaMaxBits.map fun most => Value.number (.natural most.toNat)).getD .null)
  | .rsaDefaultBits => ("default_rsa_bits", .number (.natural s.rsaDefaultBits.toNat))
  | .maxPasswordAttempts => ("max_password_attempts", .number (.natural s.maxPasswordAttempts.toNat))

def document (s : Settings) (parts : List Part) : Value := .object (parts.map s.member)

theorem document_all (s : Settings) : s.document Part.all = s.json := rfl

def override (base s : Settings) (parts : List Part) : Settings where
  hashAlgorithms := if .hashAlgorithms ∈ parts then s.hashAlgorithms else base.hashAlgorithms
  iterations := if .iterations ∈ parts then s.iterations else base.iterations
  maxIterations := if .maxIterations ∈ parts then s.maxIterations else base.maxIterations
  rsaMinBits := if .rsaMinBits ∈ parts then s.rsaMinBits else base.rsaMinBits
  rsaMaxBits := if .rsaMaxBits ∈ parts then s.rsaMaxBits else base.rsaMaxBits
  rsaDefaultBits := if .rsaDefaultBits ∈ parts then s.rsaDefaultBits else base.rsaDefaultBits
  maxPasswordAttempts :=
    if .maxPasswordAttempts ∈ parts then s.maxPasswordAttempts else base.maxPasswordAttempts

theorem override_cons (base s : Settings) (p : Part) (parts : List Part) :
    (base.override s [p]).override s parts = base.override s (p :: parts) := by
  cases p <;> simp [override]

theorem override_all (base s : Settings) : base.override s Part.all = s := rfl

/-! ## Drafts -/

namespace Draft

/-- Whether a field has been read. -/
def has (d : Draft) : Part → Bool
  | .hashAlgorithms => d.hashAlgorithms.isSome
  | .iterations => d.iterations.isSome
  | .maxIterations => d.maxIterations.isSome
  | .rsaMinBits => d.rsaMinBits.isSome
  | .rsaMaxBits => d.rsaMaxBits.isSome
  | .rsaDefaultBits => d.rsaDefaultBits.isSome
  | .maxPasswordAttempts => d.maxPasswordAttempts.isSome

/-- The draft once a field of some settings has been read. -/
def put (s : Settings) (d : Draft) : Part → Draft
  | .hashAlgorithms => { d with hashAlgorithms := some s.hashAlgorithms }
  | .iterations => { d with iterations := some s.iterations }
  | .maxIterations => { d with maxIterations := some s.maxIterations }
  | .rsaMinBits => { d with rsaMinBits := some s.rsaMinBits }
  | .rsaMaxBits => { d with rsaMaxBits := some s.rsaMaxBits }
  | .rsaDefaultBits => { d with rsaDefaultBits := some s.rsaDefaultBits }
  | .maxPasswordAttempts => { d with maxPasswordAttempts := some s.maxPasswordAttempts }

theorem has_put (s : Settings) (d : Draft) (p q : Part) :
    (d.put s p).has q = (decide (q = p) || d.has q) := by
  cases p <;> cases q <;> rfl

theorem settings_put (s : Settings) (d : Draft) (p : Part) :
    (d.put s p).settings = d.settings.override s [p] := by
  cases p <;> rfl

theorem settings_foldl_put (s : Settings) (d : Draft) (parts : List Part) :
    (parts.foldl (put s) d).settings = d.settings.override s parts := by
  induction parts generalizing d with
  | nil => rfl
  | cons p parts ih => rw [List.foldl_cons, ih, settings_put, override_cons]

end Draft

theorem obtains_word32 (n : UInt32) : Obtains word32 (.number (.natural n.toNat)) n := by
  intro depth bs rest h
  refine bind_eq_ok.mpr ⟨_, obtains_naturalBelow "u32" n.toNat_lt h, ?_⟩
  simp only [UInt32.ofNat_toNat]
  rfl

theorem obtains_word64 (n : UInt64) : Obtains word64 (.number (.natural n.toNat)) n := by
  intro depth bs rest h
  refine bind_eq_ok.mpr ⟨_, obtains_naturalBelow "usize" n.toNat_lt h, ?_⟩
  simp only [UInt64.ofNat_toNat]
  rfl

theorem obtains_hashAlgorithms (algorithms : List HashAlgorithm) :
    Obtains (listOf HashAlgorithm.reader) (.list (algorithms.map fun a => .string a.name)) algorithms :=
  obtains_listOf (List.forall₂_map_left_iff.mpr (List.forall₂_same.mpr fun a _ => a.obtains_name))

theorem obtains_rsaMaxBits (most : Option UInt64) :
    Obtains (Json.optional word64) ((most.map fun n => Value.number (.natural n.toNat)).getD .null) most := by
  cases most with
  | none => exact obtains_optional_null word64
  | some n => exact obtains_optional (by simp) (obtains_word64 n)

/-- A member of a document fills the field of its name. -/
theorem exists_field (s : Settings) (d : Draft) (p : Part) :
    ∃ field, layout.fields.find? (·.name == (s.member p).1) = some field ∧ field.isFilled d = d.has p ∧
      Obtains (field.fill d) (s.member p).2 (d.put s p) := by
  cases p with
  | hashAlgorithms => exact ⟨_, rfl, rfl, Layout.obtains_fill (obtains_hashAlgorithms s.hashAlgorithms) d⟩
  | iterations => exact ⟨_, rfl, rfl, Layout.obtains_fill (obtains_word32 s.iterations) d⟩
  | maxIterations => exact ⟨_, rfl, rfl, Layout.obtains_fill (obtains_word32 s.maxIterations) d⟩
  | rsaMinBits => exact ⟨_, rfl, rfl, Layout.obtains_fill (obtains_word64 s.rsaMinBits) d⟩
  | rsaMaxBits => exact ⟨_, rfl, rfl, Layout.obtains_fill (obtains_rsaMaxBits s.rsaMaxBits) d⟩
  | rsaDefaultBits => exact ⟨_, rfl, rfl, Layout.obtains_fill (obtains_word64 s.rsaDefaultBits) d⟩
  | maxPasswordAttempts => exact ⟨_, rfl, rfl, Layout.obtains_fill (obtains_word32 s.maxPasswordAttempts) d⟩

theorem collects_members (s : Settings) {parts : List Part} (hparts : parts.Nodup) {d : Draft}
    (hempty : ∀ p ∈ parts, d.has p = false) :
    layout.Collects d (parts.map s.member) (parts.foldl (Draft.put s) d) := by
  induction parts generalizing d with
  | nil => exact .nil d
  | cons p parts ih =>
    obtain ⟨hp, hparts⟩ := List.nodup_cons.mp hparts
    obtain ⟨field, hfield, hfilled, hfill⟩ := exists_field s d p
    refine .fill hfield (hfilled.trans (hempty p List.mem_cons_self)) hfill (ih hparts fun q hq => ?_)
    -- what is read later is another field, so that it is still empty
    have hne : q ≠ p := fun heq => hp (heq ▸ hq)
    rw [Draft.has_put, decide_eq_false hne, Bool.false_or, hempty q (List.mem_cons_of_mem p hq)]

/-! ## Documents -/

variable {s : Settings} {parts : List Part} {text : Bytes}

theorem obtains_document (s : Settings) (hparts : parts.Nodup) :
    Obtains layout.read (s.document parts) (default.override s parts) := by
  refine Layout.obtains_object (collects_members s hparts fun p _ => ?_)
    (congrArg Except.ok (Draft.settings_foldl_put s {} parts))
  cases p <;> rfl

/-- Settings that have been read are those of the text, if they are acceptable. -/
theorem parse_of_whole (h : whole layout.read text = .ok s) : parse text = s.validate.map fun _ => s := by
  rw [parse, h]
  change (s.validate >>= fun _ => .ok s) = _
  cases s.validate with
  | error e => rfl
  | ok u => rfl

theorem validate_of_parse (h : parse text = .ok s) : s.validate = .ok () := by
  obtain ⟨t, -, h⟩ := bind_eq_ok.mp h
  obtain ⟨u, hvalid, h⟩ := bind_eq_ok.mp h
  cases h
  exact hvalid

theorem report_of_validate {e : Failure} (h : s.validate = .error e) :
    e.report.category = "FormatError" ∧ e.report.code = ReportCode.invalidSettings.number := by
  unfold validate at h
  split at h
  next fault _ =>
    cases h
    cases fault <;> exact ⟨rfl, rfl⟩
  next => cases h

theorem readsBefore_member (s : Settings) (p : Part) :
    ReadsBefore (Value.read 126) (s.member p).2 (s.member p).2 := by
  have hsmall : ∀ n : UInt32, n.toNat < 2 ^ 64 := fun n => Nat.lt_trans n.toNat_lt (by decide)
  cases p with
  | hashAlgorithms =>
    refine (Value.Numberless.reads (.list fun v hv => ?_)).before
    obtain ⟨a, -, rfl⟩ := List.mem_map.mp hv
    exact .string _ _
  | iterations => exact Value.reads_natural 126 (hsmall s.iterations)
  | maxIterations => exact Value.reads_natural 126 (hsmall s.maxIterations)
  | rsaMinBits => exact Value.reads_natural 126 s.rsaMinBits.toNat_lt
  | rsaMaxBits =>
    rw [member]
    cases s.rsaMaxBits with
    | none => exact (Value.Numberless.reads (.null 126)).before
    | some most => exact Value.reads_natural 126 most.toNat_lt
  | rsaDefaultBits => exact Value.reads_natural 126 s.rsaDefaultBits.toNat_lt
  | maxPasswordAttempts => exact Value.reads_natural 126 (hsmall s.maxPasswordAttempts)

theorem parse_document_text (s : Settings) (parts : List Part) :
    Value.parse (Text.utf8 (s.document parts).text) = .ok (s.document parts) := by
  refine Value.parse_object fun m hm => ?_
  obtain ⟨p, -, rfl⟩ := List.mem_map.mp hm
  exact readsBefore_member s p

/-- A document that names some fields once each, in any order, is read as the defaults with those fields
replaced, or refused for the reason for which these settings are. Whatever is read has been accepted, and accepted
settings are read from the document of all their fields. -/
theorem parse_override (s : Settings) (hparts : parts.Nodup) :
    (∀ text, Value.parse text = .ok (s.document parts) →
      parse text = (default.override s parts).validate.map fun _ => default.override s parts) ∧
    Value.parse (Text.utf8 (s.document parts).text) = .ok (s.document parts) ∧
    (∀ e, (default.override s parts).validate = .error e →
      e.report.category = "FormatError" ∧ e.report.code = ReportCode.invalidSettings.number) ∧
    (∀ text t, parse text = .ok t → t.validate = .ok ()) ∧
    (s.validate = .ok () → parse (Text.utf8 s.json.text) = .ok s ∧
      ∀ text, Value.parse text = .ok s.json → parse text = .ok s) := by
  have hread : ∀ {parts : List Part}, parts.Nodup →
      ∀ text, Value.parse text = .ok (s.document parts) →
        parse text = (default.override s parts).validate.map fun _ => default.override s parts :=
    fun hparts text htext => parse_of_whole (whole_obtains (obtains_document s hparts) htext)
  refine ⟨hread hparts, parse_document_text s parts, fun e => report_of_validate,
    fun text t => validate_of_parse, fun hvalid => ?_⟩
  have hall : ∀ text, Value.parse text = .ok s.json → parse text = .ok s := by
    intro text htext
    rw [← document_all] at htext
    have hs := hread (show Part.all.Nodup by decide) text htext
    rwa [override_all, hvalid] at hs
  rw [← document_all] at hall ⊢
  exact ⟨hall _ (parse_document_text s Part.all), hall⟩

/-- A ceiling that is acceptable with its own iteration count is not with the default one. -/
theorem parse_override_ceiling :
    let s : Settings := { iterations := 500, maxIterations := 1000 }
    s.validate = .ok () ∧ [Part.maxIterations, Part.iterations].Nodup ∧
      parse (Text.utf8 (s.document [.maxIterations]).text) = .error (.settings (.ceilingBelow 100000 1000)) ∧
      parse (Text.utf8 (s.document [.maxIterations, .iterations]).text) = .ok s := by
  intro s
  have hone : [Part.maxIterations].Nodup := by decide
  have htwo : [Part.maxIterations, Part.iterations].Nodup := by decide
  obtain ⟨hread, htext, -⟩ := parse_override s hone
  obtain ⟨hread', htext', -⟩ := parse_override s htwo
  exact ⟨rfl, htwo, hread _ htext, hread' _ htext'⟩

end Settings

end KeyCustody
