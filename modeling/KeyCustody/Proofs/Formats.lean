import KeyCustody.Proofs.DocumentKind
import KeyCustody.Proofs.IterationLimit
import KeyCustody.Proofs.JsonHyphens
/-! # Telling the formats of private keys apart

The first line of an RSA key ends in hyphens, no line of a JSON document does, and an envelope has no
hyphens at all. No text is of two of these formats. -/

namespace KeyCustody

/-! ## Lines that end in hyphens -/

namespace Text

variable {cs ds : List Char}

/-- Some line of a text ends in a hyphen. -/
def DashedLine (cs : List Char) : Prop := ∃ c, (c = '\n' ∨ c = '\r') ∧ ['-', c] <:+: cs

theorem DashedLine.mono (h : DashedLine cs) (hpart : cs <:+: ds) : DashedLine ds :=
  h.imp fun _ h => ⟨h.1, h.2.trans hpart⟩

theorem DashedLine.mem (h : DashedLine cs) : '-' ∈ cs := by
  obtain ⟨c, -, hpart⟩ := h
  exact hpart.subset List.mem_cons_self

theorem trim_isInfix (cs : List Char) : trim cs <:+: cs := by
  have hend : trimEnd (cs.dropWhile isBlank) <+: cs.dropWhile isBlank := by
    rw [trimEnd, ← List.reverse_suffix, List.reverse_reverse]
    exact List.dropWhile_suffix isBlank
  exact hend.isInfix.trans (List.dropWhile_suffix isBlank).isInfix

end Text

/-- The line of the first mark ends in hyphens. -/
theorem Pem.dashedLine_of_decodeChars? {cs : List Char} {block : Block}
    (h : decodeChars? cs = some block) : Text.DashedLine cs := by
  obtain ⟨before, body, after, hbody, rfl, -⟩ := decodeChars?_eq_some h
  obtain ⟨c, tail, rfl, hc⟩ := hbody.eq_cons
  have hdashes : dashes = "----".toList ++ ['-'] := rfl
  refine ⟨c, hc, before ++ beginMark ++ block.label.toList ++ "----".toList,
    tail ++ (endMark ++ block.label.toList ++ dashes) ++ after, ?_⟩
  rw [between]
  nth_rewrite 2 [hdashes]
  simp only [List.append_assoc, List.cons_append, List.nil_append]

theorem Rsa.dashedLine_of_block? {cs : List Char} {block : Pem.Block} (h : block? cs = some block) :
    Text.DashedLine cs := by
  obtain ⟨block', hblock, -⟩ := Option.bind_eq_some_iff.mp h
  exact Pem.dashedLine_of_decodeChars? hblock

/-! ## Documents -/

theorem Json.Tidy.not_dashedLine {text : String} (h : Json.Tidy (Text.utf8 text)) :
    ¬ Text.DashedLine text.toList := by
  rintro ⟨c, hc, before, after, htext⟩
  have hbytes : Text.utf8 text = before.flatMap String.utf8EncodeChar ++
      0x2D :: UInt8.ofNat c.toNat :: after.flatMap String.utf8EncodeChar := by
    rw [Text.utf8, ← htext, List.append_assoc, List.flatMap_append]
    rcases hc with rfl | rfl <;> rfl
  rw [hbytes] at h
  refine h.of_append ?_
  rcases hc with rfl | rfl <;> decide

/-- No line of a key pair's document ends in a hyphen. -/
theorem KeyPair.not_dashedLine_of_parse {text : String} {k : KeyPair}
    (h : KeyPair.parse (Text.utf8 text) = .ok k) : ¬ Text.DashedLine text.toList := by
  unfold KeyPair.parse at h
  exact ((Json.Layout.takesValue_read fieldsTakeValues).tidy (Json.mapError_eq_ok.mp h)).not_dashedLine

theorem Metadata.not_dashedLine_of_parse {text : String} {m : Metadata}
    (h : Metadata.parse (Text.utf8 text) = .ok m) : ¬ Text.DashedLine text.toList := by
  unfold Metadata.parse at h
  exact ((Json.Layout.takesValue_read fieldsTakeValues).tidy (Json.mapError_eq_ok.mp h)).not_dashedLine

/-! ## Envelopes -/

theorem Hex.isSome_of_nibble {b n : UInt8} {index : Nat} (h : nibble b index = .ok n) :
    (digit? b).isSome = true := by
  unfold nibble at h
  split at h
  next hdigit =>
    rw [hdigit]
    rfl
  next => cases h

theorem Hex.isSome_of_decodePairs {index : Nat} : {bs out : Bytes} → bs.length % 2 = 0 →
    decodePairs index bs = .ok out → ∀ b ∈ bs, (digit? b).isSome = true
  | [], _, _, _ => nofun
  | [_], _, heven, _ => nomatch heven
  | high :: low :: bs, out, heven, h => by
    obtain ⟨n, hhigh, h⟩ := Json.bind_eq_ok.mp h
    obtain ⟨m, hlow, h⟩ := Json.bind_eq_ok.mp h
    obtain ⟨tail, htail, -⟩ := Json.bind_eq_ok.mp h
    have heven' : bs.length % 2 = 0 := by
      simp only [List.length_cons] at heven
      omega
    intro b hb
    obtain rfl | rfl | hb := (by simpa only [List.mem_cons] using hb : b = high ∨ b = low ∨ b ∈ bs)
    · exact isSome_of_nibble hhigh
    · exact isSome_of_nibble hlow
    · exact isSome_of_decodePairs heven' htail b hb

theorem Decimal.readFrom?_eq_none {cs : List Char} {c : Char} (h : c ∈ cs) (hc : digit? c = none)
    (value : Nat) : readFrom? value cs = none := by
  induction cs generalizing value with
  | nil => cases h
  | cons d cs ih =>
    rw [readFrom?]
    obtain rfl | h := List.mem_cons.mp h
    · rw [hc]
      rfl
    · cases digit? d with
      | none => rfl
      | some n => exact ih h _

namespace Envelope

variable {cs : List Char} {text : String} {e : Envelope}

theorem notMem_of_hexField {name : String} {b : Bytes} (h : hexField name cs = .ok b) : '-' ∉ cs := by
  intro hmem
  have hbyte : (0x2D : UInt8) ∈ Text.utf8 (String.ofList cs) := by
    rw [Text.utf8, String.toList_ofList]
    exact List.mem_flatMap.mpr ⟨'-', hmem, by decide⟩
  unfold hexField Hex.decode Hex.decodeBytes at h
  split_ifs at h with hodd
  · cases h
  · cases hpairs : Hex.decodePairs 0 (Text.utf8 (String.ofList cs)) with
    | error fault =>
      rw [hpairs] at h
      cases h
    | ok out =>
      have hdigit := Hex.isSome_of_decodePairs (Nat.mod_two_ne_one.mp hodd) hpairs _ hbyte
      exact absurd hdigit (by decide)

/-- The digits of a count, without the plus sign before them. -/
def afterPlus : List Char → List Char
  | '+' :: rest => rest
  | cs => cs

theorem notMem_of_countField {n : UInt32} (h : countField cs = .ok n) : '-' ∉ cs := by
  intro hmem
  have hdigits : ∀ ds : List Char, '-' ∈ ds → Decimal.read? ds = none := by
    intro ds hds
    unfold Decimal.read?
    split
    · cases hds
    · exact Decimal.readFrom?_eq_none hds (by decide) 0
  have hafter : '-' ∈ afterPlus cs := by
    unfold afterPlus
    split
    next => exact (List.mem_cons.mp hmem).resolve_left (by decide)
    next => exact hmem
  unfold countField at h
  simp only at h
  split at h
  next heq => cases heq.symm.trans (hdigits _ hafter)
  next => cases h

theorem exists_mem_fields {c : Char} (hc : c ≠ '@') (h : c ∈ cs) : ∃ f ∈ fields cs, c ∈ f := by
  induction cs using fields.induct with
  | case1 => cases h
  | case2 cs ih =>
    have hrest : c ∈ cs := by
      simpa only [List.mem_cons, hc, false_or] using h
    obtain ⟨f, hf, hcf⟩ := ih hrest
    exact ⟨f, List.mem_cons_of_mem _ hf, hcf⟩
  | case3 d cs hmark f fs hfields ih =>
    rw [fields, hfields]
    · obtain rfl | hrest := List.mem_cons.mp h
      · exact ⟨_, List.mem_cons_self, List.mem_cons_self⟩
      · obtain ⟨f', hf', hcf⟩ := ih hrest
        rw [hfields] at hf'
        obtain rfl | hf' := List.mem_cons.mp hf'
        · exact ⟨_, List.mem_cons_self, List.mem_cons_of_mem _ hcf⟩
        · exact ⟨f', List.mem_cons_of_mem _ hf', hcf⟩
    · exact hmark
  | case4 d cs hmark hfields ih =>
    rw [fields, hfields]
    · obtain rfl | hrest := List.mem_cons.mp h
      · exact ⟨_, List.mem_cons_self, List.mem_cons_self⟩
      · obtain ⟨f', hf', -⟩ := ih hrest
        rw [hfields] at hf'
        cases hf'
    · exact hmark

/-- An envelope has no hyphens. -/
theorem notMem_of_decode (h : decode text = .ok e) : '-' ∉ Text.trim text.toList := by
  intro hmem
  obtain ⟨f, hf, hyphen⟩ := exists_mem_fields (by decide) hmem
  unfold decode at h
  split at h
  next salt count tag iv ciphertext hfields =>
    obtain ⟨b₁, hsalt, h⟩ := Outcome.bind_eq_ok.mp h
    obtain ⟨n, hcount, h⟩ := Outcome.bind_eq_ok.mp h
    obtain ⟨b₂, htag, h⟩ := Outcome.bind_eq_ok.mp h
    obtain ⟨b₃, hiv, h⟩ := Outcome.bind_eq_ok.mp h
    obtain ⟨b₄, hciphertext, -⟩ := Outcome.bind_eq_ok.mp h
    rw [hfields] at hf
    simp only [List.mem_cons, List.not_mem_nil, or_false] at hf
    obtain rfl | rfl | rfl | rfl | rfl := hf
    · exact notMem_of_hexField hsalt hyphen
    · exact notMem_of_countField hcount hyphen
    · exact notMem_of_hexField htag hyphen
    · exact notMem_of_hexField hiv hyphen
    · exact notMem_of_hexField hciphertext hyphen
  next => cases h

end Envelope

end KeyCustody
