import KeyCustody.Proofs.Marks
import KeyCustody.Proofs.NumeralReaders
/-! # The texts of envelopes

A text is an envelope exactly if, without the blanks around it, it is cut at its marks into five fields of
which four are hexadecimal and one is a count, each within its bounds. What is written for an envelope that
has been read is the normal form of its text. -/

namespace KeyCustody

/-- The text of an envelope is said to be malformed. -/
def Failure.IsMalformedEnvelope (e : Failure) : Prop :=
  e.report.category = "DecodeError" ∧ e.report.code = ReportCode.malformedEnvelope.number

namespace Envelope

variable {cs f : List Char} {fs : List (List Char)} {text : String} {e : Envelope}

/-! ## Cutting at marks -/

/-- A text cut at every mark from the left: each field but the last ends where the first mark begins. -/
inductive Cut : List Char → List (List Char) → Prop where
  | last {f : List Char} : ¬ mark <:+: f → Cut f [f]
  | next {f rest : List Char} {fs : List (List Char)} :
      (∀ before after, f ++ (mark ++ rest) = before ++ (mark ++ after) → f.length ≤ before.length) →
      Cut rest fs → Cut (f ++ (mark ++ rest)) (f :: fs)

theorem fields_ne_nil (cs : List Char) : fields cs ≠ [] := by
  fun_cases fields cs <;> simp

theorem fields_cons {c : Char} (h : ¬ mark <+: c :: cs) (hfields : fields cs = f :: fs) :
    fields (c :: cs) = (c :: f) :: fs := by
  rw [fields, hfields]
  rintro ds rfl rfl
  exact h ⟨ds, rfl⟩

theorem fields_mark (cs : List Char) : fields (mark ++ cs) = [] :: fields cs := rfl

theorem cut_fields (cs : List Char) : Cut cs (fields cs) := by
  induction cs using fields.induct with
  | case1 => exact .last (by decide)
  | case2 cs ih => exact .next (f := []) (fun _ _ _ => Nat.zero_le _) ih
  | case3 c cs hmark f fs hfields ih =>
    have hstart : ¬ mark <+: c :: cs := by
      rintro ⟨ds, hds⟩
      obtain ⟨rfl, rfl⟩ := List.cons.inj hds.symm
      exact hmark _ rfl rfl
    rw [fields_cons hstart hfields]
    rw [hfields] at ih
    cases ih with
    | last hnone =>
      refine .last fun hmark => ?_
      obtain hprefix | hinfix := List.infix_cons_iff.mp hmark
      · exact hstart hprefix
      · exact hnone hinfix
    | @next _ rest _ hfirst hrest =>
      refine .next (f := c :: f) (fun before after heq => ?_) hrest
      cases before with
      | nil => exact absurd ⟨after, heq.symm⟩ hstart
      | cons b before =>
        have htail := (List.cons.inj heq).2
        exact Nat.succ_le_succ (hfirst before after htail)
  | case4 c cs hmark hfields ih => exact absurd hfields (fields_ne_nil cs)

theorem Cut.fields_eq (h : Cut cs fs) : fields cs = fs := by
  induction h with
  | @last f hnone =>
    induction f with
    | nil => rfl
    | cons c f ih =>
      exact fields_cons (fun hstart => hnone hstart.isInfix) (ih fun h => hnone (List.infix_cons h))
  | @next f rest fs hfirst _ ih =>
    induction f with
    | nil => rw [List.nil_append, fields_mark, ih]
    | cons c f ihf =>
      refine fields_cons ?_ (ihf fun before after heq => ?_)
      · rintro ⟨after, heq⟩
        have := hfirst [] after heq.symm
        simp at this
      · have := hfirst (c :: before) after (congrArg (c :: ·) heq)
        exact Nat.le_of_succ_le_succ this

theorem fields_eq_iff : fields cs = fs ↔ Cut cs fs :=
  ⟨fun h => h ▸ cut_fields cs, Cut.fields_eq⟩

/-! ## Fields -/

theorem hexField_eq_ok {name : String} {b : Bytes} :
    hexField name cs = .ok b ↔ Hex.decode (String.ofList cs) = .ok b := by
  unfold hexField
  cases Hex.decode (String.ofList cs) <;> simp [Except.mapError]

theorem countField_eq (cs : List Char) :
    countField cs = (Decimal.read? (afterPlus cs)).elim (.error (.envelope .badIterations)) fun n =>
      if n < Nat.pow 2 32 then .ok (UInt32.ofNat n) else .error (.envelope .badIterations) := by
  unfold countField
  simp only
  split
  next n hread =>
    change Decimal.read? (afterPlus cs) = some n at hread
    rw [hread, Option.elim_some]
  next hread =>
    change Decimal.read? (afterPlus cs) = none at hread
    rw [hread, Option.elim_none]

theorem countField_eq_ok {n : UInt32} :
    countField cs = .ok n ↔ Decimal.IsNumeral (afterPlus cs) ∧
      Decimal.valueOf (afterPlus cs) < 2 ^ 32 ∧ n.toNat = Decimal.valueOf (afterPlus cs) := by
  rw [countField_eq]
  constructor
  · intro h
    cases hread : Decimal.read? (afterPlus cs) with
    | none =>
      rw [hread] at h
      cases h
    | some k =>
      rw [hread, Option.elim_some] at h
      obtain ⟨hnumeral, rfl⟩ := Decimal.read?_eq_some_iff.mp hread
      split_ifs at h with hlt
      · cases h
        exact ⟨hnumeral, hlt, UInt32.toNat_ofNat_of_lt' hlt⟩
  · rintro ⟨hnumeral, hlt, hn⟩
    rw [Decimal.read?_eq_some_iff.mpr ⟨hnumeral, rfl⟩, Option.elim_some,
      if_pos (show Decimal.valueOf (afterPlus cs) < Nat.pow 2 32 from hlt), ← hn, UInt32.ofNat_toNat]

/-- The fields of an envelope as they stand in a text. -/
structure Parts where
  salt : List Char
  count : List Char
  tag : List Char
  iv : List Char
  ciphertext : List Char

namespace Parts

variable {p : Parts}

def toList (p : Parts) : List (List Char) := [p.salt, p.count, p.tag, p.iv, p.ciphertext]

/-- What the fields of an envelope may be. A plus sign may stand before the count. -/
structure Allowed (p : Parts) : Prop where
  salt : Hex.IsNumeral p.salt
  salt_ne_nil : p.salt ≠ []
  count : Decimal.IsNumeral (afterPlus p.count)
  count_pos : 0 < Decimal.valueOf (afterPlus p.count)
  count_lt : Decimal.valueOf (afterPlus p.count) < 2 ^ 32
  tag : Hex.IsNumeral p.tag
  length_tag : p.tag.length = 64
  iv : Hex.IsNumeral p.iv
  length_iv : p.iv.length = 32
  ciphertext : Hex.IsNumeral p.ciphertext

/-- The envelope that fields spell. -/
structure Spells (p : Parts) (e : Envelope) : Prop where
  salt : Hex.decode (String.ofList p.salt) = .ok e.salt
  iterations : e.iterations.toNat = Decimal.valueOf (afterPlus p.count)
  tag : Hex.decode (String.ofList p.tag) = .ok e.tag
  iv : Hex.decode (String.ofList p.iv) = .ok e.iv
  ciphertext : Hex.decode (String.ofList p.ciphertext) = .ok e.ciphertext

/-- The fields with lower case letters only, and the count without a sign and without leading zeros. -/
def normal (p : Parts) : Parts where
  salt := p.salt.map Char.toLower
  count := Decimal.withoutZeros (afterPlus p.count)
  tag := p.tag.map Char.toLower
  iv := p.iv.map Char.toLower
  ciphertext := p.ciphertext.map Char.toLower

end Parts

/-- An envelope whose fields have been read, if it is well formed. -/
def checked (e : Envelope) : Outcome Envelope := do
  if e.salt = [] ∨ e.iterations = 0 then throw (.envelope .missingParameters)
  if e.iv.length ≠ 16 then throw (.envelope .ivSize)
  if e.tag.length ≠ 32 then throw (.envelope .tagSize)
  return e

theorem checked_eq (e : Envelope) :
    checked e = if e.salt = [] ∨ e.iterations = 0 then .error (.envelope .missingParameters)
      else if e.iv.length ≠ 16 then .error (.envelope .ivSize)
      else if e.tag.length ≠ 32 then .error (.envelope .tagSize)
      else .ok e := by
  unfold checked
  split_ifs <;> rfl

theorem checked_eq_ok {e' : Envelope} : checked e = .ok e' ↔ e'.WellFormed ∧ e = e' := by
  rw [checked_eq]
  constructor
  · intro h
    split_ifs at h with hparameters hiv htag
    obtain rfl := Except.ok.inj h
    rw [not_or] at hparameters
    exact ⟨⟨hparameters.1, hparameters.2, not_not.mp hiv, not_not.mp htag⟩, rfl⟩
  · rintro ⟨h, rfl⟩
    simp [h.salt, h.iterations, h.iv, h.tag]

/-- The envelope that the fields of a text give, one field after the other. -/
def Parts.decode (p : Parts) : Outcome Envelope := do
  let salt ← hexField "salt" p.salt
  let iterations ← countField p.count
  let tag ← hexField "hmac" p.tag
  let iv ← hexField "iv" p.iv
  let ciphertext ← hexField "ciphertext" p.ciphertext
  checked ⟨salt, iterations, tag, iv, ciphertext⟩

theorem decode_of_fields {p : Parts} (h : fields (Text.trim text.toList) = p.toList) :
    decode text = p.decode := by
  simp only [decode, h, Parts.toList]
  rfl

theorem exists_parts (text : String) :
    (∃ p : Parts, fields (Text.trim text.toList) = p.toList) ∨
      (∀ p : Parts, fields (Text.trim text.toList) ≠ p.toList) ∧
        decode text = .error (.envelope (.fieldCount (fields (Text.trim text.toList)).length)) := by
  unfold decode
  split
  next salt count tag iv ciphertext hfields => exact .inl ⟨⟨salt, count, tag, iv, ciphertext⟩, hfields⟩
  next hother =>
    exact .inr ⟨fun p hp => hother _ _ _ _ _ hp, rfl⟩

theorem Parts.decode_eq_ok {p : Parts} :
    p.decode = .ok e ↔ hexField "salt" p.salt = .ok e.salt ∧ countField p.count = .ok e.iterations ∧
      hexField "hmac" p.tag = .ok e.tag ∧ hexField "iv" p.iv = .ok e.iv ∧
      hexField "ciphertext" p.ciphertext = .ok e.ciphertext ∧ e.WellFormed := by
  constructor
  · intro h
    obtain ⟨salt, hsalt, h⟩ := Outcome.bind_eq_ok.mp h
    obtain ⟨iterations, hcount, h⟩ := Outcome.bind_eq_ok.mp h
    obtain ⟨tag, htag, h⟩ := Outcome.bind_eq_ok.mp h
    obtain ⟨iv, hiv, h⟩ := Outcome.bind_eq_ok.mp h
    obtain ⟨ciphertext, hciphertext, h⟩ := Outcome.bind_eq_ok.mp h
    obtain ⟨hformed, rfl⟩ := checked_eq_ok.mp h
    exact ⟨hsalt, hcount, htag, hiv, hciphertext, hformed⟩
  · rintro ⟨hsalt, hcount, htag, hiv, hciphertext, hformed⟩
    simp only [Parts.decode, hsalt, hcount, htag, hiv, hciphertext, Outcome.ok_bind]
    exact checked_eq_ok.mpr ⟨hformed, rfl⟩

/-- The bounds of an envelope are bounds of the fields that spell it. -/
theorem Parts.Spells.wellFormed_iff {p : Parts} (h : p.Spells e) :
    e.WellFormed ↔ p.salt ≠ [] ∧ 0 < Decimal.valueOf (afterPlus p.count) ∧ p.tag.length = 64 ∧
      p.iv.length = 32 := by
  have hsalt : p.salt = [] ↔ e.salt = [] := by
    rw [← List.length_eq_zero_iff, ← List.length_eq_zero_iff, Hex.length_of_decode h.salt]
    omega
  have hcount : e.iterations = 0 ↔ Decimal.valueOf (afterPlus p.count) = 0 := by
    rw [← h.iterations, ← UInt32.toNat_inj]
    rfl
  have htag := Hex.length_of_decode h.tag
  have hiv := Hex.length_of_decode h.iv
  rw [ne_eq, hsalt, Nat.pos_iff_ne_zero, ne_eq, ← hcount, htag, hiv]
  constructor
  · rintro ⟨hsalt, hiterations, hiv, htag⟩
    exact ⟨hsalt, hiterations, by omega, by omega⟩
  · rintro ⟨hsalt, hiterations, htag, hiv⟩
    exact ⟨hsalt, hiterations, by omega, by omega⟩

/-- Fields give an envelope exactly if each of them may be one, and it is the envelope that they spell. -/
theorem Parts.decode_eq_ok_iff {p : Parts} : p.decode = .ok e ↔ p.Allowed ∧ p.Spells e := by
  simp only [Parts.decode_eq_ok, hexField_eq_ok, countField_eq_ok]
  constructor
  · rintro ⟨hsalt, ⟨hcount, hlt, hn⟩, htag, hiv, hciphertext, hformed⟩
    have hspells : p.Spells e := ⟨hsalt, hn, htag, hiv, hciphertext⟩
    obtain ⟨hne, hpos, hlengthTag, hlengthIv⟩ := hspells.wellFormed_iff.mp hformed
    exact ⟨⟨Hex.isNumeral_of_decode hsalt, hne, hcount, hpos, hlt, Hex.isNumeral_of_decode htag, hlengthTag,
      Hex.isNumeral_of_decode hiv, hlengthIv, Hex.isNumeral_of_decode hciphertext⟩, hspells⟩
  · rintro ⟨hp, he⟩
    exact ⟨he.salt, ⟨hp.count, hp.count_lt, he.iterations⟩, he.tag, he.iv, he.ciphertext,
      he.wellFormed_iff.mpr ⟨hp.salt_ne_nil, hp.count_pos, hp.length_tag, hp.length_iv⟩⟩

theorem Parts.Allowed.exists_spells {p : Parts} (h : p.Allowed) : ∃ e, p.Spells e := by
  obtain ⟨salt, hsalt, -⟩ := h.salt.decode_eq_ok
  obtain ⟨tag, htag, -⟩ := h.tag.decode_eq_ok
  obtain ⟨iv, hiv, -⟩ := h.iv.decode_eq_ok
  obtain ⟨ciphertext, hciphertext, -⟩ := h.ciphertext.decode_eq_ok
  exact ⟨⟨salt, UInt32.ofNat (Decimal.valueOf (afterPlus p.count)), tag, iv, ciphertext⟩, hsalt,
    UInt32.toNat_ofNat_of_lt' h.count_lt, htag, hiv, hciphertext⟩

/-- What is written for an envelope is the normal form of the fields that spell it. -/
theorem Parts.Spells.encodeChars_eq {p : Parts} (h : p.Spells e) (hp : p.Allowed) :
    e.encodeChars = mark.intercalate p.normal.toList := by
  have hhex : ∀ {cs b}, Hex.decode (String.ofList cs) = .ok b → Hex.encodeChars b = cs.map Char.toLower :=
    fun h => (Hex.decode_ofList_eq_ok.mp h).2
  have hcount := (Decimal.digits_valueOf hp.count.digits).2 (Nat.pos_iff_ne_zero.mp hp.count_pos)
  rw [encodeChars, hhex h.salt, hhex h.tag, hhex h.iv, hhex h.ciphertext, h.iterations, hcount]
  rfl

/-! ## What is refused -/

theorem hexField_eq_error {name : String} {failure : Failure} (h : hexField name cs = .error failure) :
    ∃ fault, failure = .envelope (.badHex name fault) := by
  unfold hexField at h
  cases hdecode : Hex.decode (String.ofList cs) with
  | error fault =>
    rw [hdecode] at h
    cases h
    exact ⟨fault, rfl⟩
  | ok b =>
    rw [hdecode] at h
    cases h

theorem countField_eq_error {failure : Failure} (h : countField cs = .error failure) :
    failure = .envelope .badIterations := by
  rw [countField_eq] at h
  cases hread : Decimal.read? (afterPlus cs) with
  | none =>
    rw [hread] at h
    exact (Except.error.inj h).symm
  | some n =>
    rw [hread, Option.elim_some] at h
    split_ifs at h
    exact (Except.error.inj h).symm

theorem checked_eq_error {failure : Failure} (h : checked e = .error failure) :
    failure ∈ [.envelope .missingParameters, .envelope .ivSize, .envelope .tagSize] := by
  rw [checked_eq] at h
  split_ifs at h <;> cases h <;> simp

/-- A text that is no envelope is refused for one of its fields, or for their number. -/
theorem decode_eq_error {failure : Failure} (h : decode text = .error failure) :
    ∃ fault, failure = .envelope fault ∧ fault ≠ .zeroIterations := by
  have hhex : ∀ {name cs}, hexField name cs = .error failure →
      ∃ fault, failure = .envelope fault ∧ fault ≠ .zeroIterations := by
    intro name cs h
    obtain ⟨fault, rfl⟩ := hexField_eq_error h
    exact ⟨_, rfl, nofun⟩
  obtain ⟨p, hp⟩ | ⟨-, hcount⟩ := exists_parts text
  · rw [decode_of_fields hp] at h
    obtain h | ⟨salt, -, h⟩ := Outcome.bind_eq_error.mp h
    · exact hhex h
    obtain h | ⟨iterations, -, h⟩ := Outcome.bind_eq_error.mp h
    · exact ⟨_, countField_eq_error h, nofun⟩
    obtain h | ⟨tag, -, h⟩ := Outcome.bind_eq_error.mp h
    · exact hhex h
    obtain h | ⟨iv, -, h⟩ := Outcome.bind_eq_error.mp h
    · exact hhex h
    obtain h | ⟨ciphertext, -, h⟩ := Outcome.bind_eq_error.mp h
    · exact hhex h
    have hfault := checked_eq_error h
    simp only [List.mem_cons, List.not_mem_nil, or_false] at hfault
    obtain rfl | rfl | rfl := hfault
    all_goals exact ⟨_, rfl, nofun⟩
  · rw [hcount] at h
    cases h
    exact ⟨_, rfl, nofun⟩

/-- A text is an envelope exactly if it is cut into fields that may be those of one. The envelope is the one
that they spell, what is written for it is their normal form, and that is read as the same envelope. Any other
text is said to be malformed. -/
theorem decode_grammar (text : String) :
    ((∃ e, decode text = .ok e) ↔ ∃ p : Parts, Cut (Text.trim text.toList) p.toList ∧ p.Allowed) ∧
      (∀ e, decode text = .ok e → ∃ p : Parts, Cut (Text.trim text.toList) p.toList ∧ p.Allowed ∧ p.Spells e ∧
        e.encodeChars = mark.intercalate p.normal.toList ∧ decode e.encode = .ok e) ∧
      ∀ failure, decode text = .error failure → failure.IsMalformedEnvelope := by
  have hdecode : ∀ e, decode text = .ok e →
      ∃ p : Parts, Cut (Text.trim text.toList) p.toList ∧ p.Allowed ∧ p.Spells e := by
    intro e h
    obtain ⟨p, hp⟩ | ⟨-, hcount⟩ := exists_parts text
    · rw [decode_of_fields hp] at h
      exact ⟨p, fields_eq_iff.mp hp, Parts.decode_eq_ok_iff.mp h⟩
    · cases h.symm.trans hcount
  refine ⟨⟨?_, ?_⟩, fun e h => ?_, fun failure h => ?_⟩
  · rintro ⟨e, h⟩
    obtain ⟨p, hcut, hp, -⟩ := hdecode e h
    exact ⟨p, hcut, hp⟩
  · rintro ⟨p, hcut, hp⟩
    obtain ⟨e, he⟩ := hp.exists_spells
    exact ⟨e, (decode_of_fields hcut.fields_eq).trans (Parts.decode_eq_ok_iff.mpr ⟨hp, he⟩)⟩
  · obtain ⟨p, hcut, hp, he⟩ := hdecode e h
    have hformed := he.wellFormed_iff.mpr ⟨hp.salt_ne_nil, hp.count_pos, hp.length_tag, hp.length_iv⟩
    exact ⟨p, hcut, hp, he, he.encodeChars_eq hp, decode_encode hformed⟩
  · obtain ⟨fault, rfl, -⟩ := decode_eq_error h
    exact ⟨rfl, rfl⟩

example : decode ("\t0aFF@@@@+0010@@@@" ++ String.ofList (List.replicate 64 'E') ++ "@@@@" ++
    String.ofList (List.replicate 32 '0') ++ "@@@@\n") =
      .ok ⟨[0x0A, 0xFF], 10, List.replicate 32 0xEE, List.replicate 16 0, []⟩ := by
  decide +kernel

end Envelope

end KeyCustody
