import KeyCustody.Proofs.ImportSoundness
import KeyCustody.Proofs.Formats
/-! # The block of a public key and what stands around it

A text from which a public key is read holds two marks with lines of Base64 between them. What stands before
and after them is ignored, whatever it is: the text holds the mark of a private key exactly if that does. -/

namespace KeyCustody.Rsa

variable {mark opening cs xs ys rest block body before after : List Char} {text : String}

/-! ## The block in a text -/

theorem fromMark?_suffix (h : fromMark? mark cs = some rest) : rest <:+ cs := by
  induction cs with
  | nil => cases h
  | cons c cs ih =>
    rw [fromMark?] at h
    split_ifs at h
    · cases h
      exact List.suffix_rfl
    · exact (ih h).trans (List.suffix_cons c cs)

theorem throughMark?_isPrefix (h : throughMark? mark cs = some block) : block <+: cs := by
  induction cs generalizing block with
  | nil => cases h
  | cons c cs ih =>
    rw [throughMark?] at h
    split_ifs at h with hmark
    · cases h
      exact List.isPrefixOf_iff_prefix.mp hmark
    · obtain ⟨tail, htail, rfl⟩ := Option.map_eq_some_iff.mp h
      exact (List.prefix_cons_inj c).mpr (ih htail)

theorem publicBlock_isInfix (cs : List Char) : publicBlock cs <:+: cs := by
  unfold publicBlock
  split
  · exact Text.trim_isInfix cs
  next rest hrest =>
    have hsuffix := (fromMark?_suffix hrest).isInfix
    split
    next block hblock => exact (throughMark?_isPrefix hblock).isInfix.trans hsuffix
    · exact (Text.trim_isInfix rest).trans hsuffix

/-- The public key that is read from a text stands in it between its marks. -/
theorem PublicKey.exists_body {key : PublicKey} (h : parse text = .ok key) :
    ∃ before body after, Pem.IsBody body ∧
      text.toList = before ++ (beginPublic ++ (body ++ endPublic)) ++ after := by
  have hmarks : ∀ body, Pem.between publicLabel.toList body = beginPublic ++ (body ++ endPublic) :=
    fun _ => rfl
  unfold parse at h
  obtain ⟨block, hblock, h⟩ := Outcome.bind_eq_ok.mp h
  split_ifs at h with hlabel
  · cases h
  rw [not_not] at hlabel
  obtain ⟨block', hdecode, hblock⟩ := Option.bind_eq_some_iff.mp (Outcome.ofOption_eq_ok.mp hblock)
  obtain ⟨e, -, hblock⟩ := Option.bind_eq_some_iff.mp hblock
  split_ifs at hblock
  · cases hblock
    obtain ⟨inner, body, outer, hbody, hall, -⟩ := Pem.decodeChars?_eq_some hdecode
    obtain ⟨before, after, htext⟩ := publicBlock_isInfix text.toList
    refine ⟨before ++ inner, body, outer ++ after, hbody, ?_⟩
    rw [← htext, hall, hlabel, hmarks]
    simp only [List.append_assoc]

/-! ## Marks of private keys -/

/-- A mark is not cut by a border behind which stands what no end of the mark begins like. -/
theorem infix_append_clear (h : Clear opening mark) :
    mark <:+: xs ++ (opening ++ rest) ↔ mark <:+: xs ∨ mark <:+: opening ++ rest := by
  rw [List.infix_append_iff_ne_nil]
  refine ⟨?_, fun hmark => hmark.imp_right .inl⟩
  rintro (hleft | hright | ⟨l, r, -, hne, hcut, -, hr⟩)
  · exact .inl hleft
  · exact .inr hright
  · have hclear := h r ((List.mem_tails _ _).mpr ⟨l, hcut.symm⟩) hne
    rcases List.prefix_or_prefix_of_prefix hr (List.prefix_append opening rest) with hr | hopening
    · exact absurd hr hclear.2
    · exact absurd hopening hclear.1

/-- A mark is not cut by a border before which stands nothing that it begins with. -/
theorem infix_append_ends (h : ∀ l ∈ mark.inits, l ≠ [] → ¬ l <:+ xs) :
    mark <:+: xs ++ ys ↔ mark <:+: xs ∨ mark <:+: ys := by
  rw [List.infix_append_iff_ne_nil]
  refine ⟨?_, fun hmark => hmark.imp_right .inl⟩
  rintro (hleft | hright | ⟨l, r, hne, -, hcut, hl, -⟩)
  · exact .inl hleft
  · exact .inr hright
  · exact absurd hl (h l ((List.mem_inits _ _).mpr ⟨r, hcut.symm⟩) hne)

/-- The first lines of private keys, encrypted or not. -/
def privateMarks : List (List Char) :=
  [privateLabel, encryptedLabel].map fun label => Pem.beginMark ++ label.toList ++ Pem.dashes

/-- A text holds the mark of a private key. -/
def HoldsPrivate (cs : List Char) : Prop := ∃ mark ∈ privateMarks, mark <:+: cs

instance (cs : List Char) : Decidable (HoldsPrivate cs) :=
  inferInstanceAs (Decidable (∃ mark ∈ privateMarks, mark <:+: cs))

/-- A block with a public key holds no mark of a private key, and of those across its borders, no more than
its outermost hyphens can be part. -/
theorem mark_around (hmark : mark ∈ privateMarks) (hbody : Pem.IsBody body) :
    mark <:+: before ++ (beginPublic ++ (body ++ endPublic)) ++ after ↔
      mark <:+: before ++ Pem.dashes ∨ mark <:+: Pem.dashes ++ after := by
  let opening := "BEGIN PUBLIC KEY-----".toList
  let closing := "-----END PUBLIC KEY".toList
  have hall : before ++ (beginPublic ++ (body ++ endPublic)) ++ after =
      (before ++ Pem.dashes) ++ (opening ++ (body ++ (closing ++ (Pem.dashes ++ after)))) := by
    have hbegin : beginPublic = Pem.dashes ++ opening := by decide
    have hend : endPublic = closing ++ Pem.dashes := by decide
    rw [hbegin, hend]
    simp only [List.append_assoc]
  have hopening : ∀ mark ∈ privateMarks, Clear opening mark ∧ ¬ mark <:+: opening := by decide
  have hclosing : ∀ mark ∈ privateMarks,
      (∀ l ∈ mark.inits, l ≠ [] → ¬ l <:+ closing) ∧ ¬ mark <:+: closing := by decide
  have hline : ∀ mark ∈ privateMarks, Clear ['\n'] mark ∧ Clear ['\r'] mark := by decide
  have hyphen : ∀ mark ∈ privateMarks, '-' ∈ mark ∧ ∀ l ∈ mark.inits, l ≠ [] → '-' ∈ l := by decide
  have hfirst : mark <:+: opening ++ (body ++ (closing ++ (Pem.dashes ++ after))) ↔
      mark <:+: opening ∨ mark <:+: body ++ (closing ++ (Pem.dashes ++ after)) := by
    obtain ⟨c, tail, rfl, hc⟩ := hbody.eq_cons
    have hclear : Clear [c] mark := by
      rcases hc with rfl | rfl
      · exact (hline mark hmark).1
      · exact (hline mark hmark).2
    exact (infix_append_clear hclear : mark <:+: opening ++ ([c] ++ _) ↔ _)
  have hsecond : mark <:+: body ++ (closing ++ (Pem.dashes ++ after)) ↔
      mark <:+: body ∨ mark <:+: closing ++ (Pem.dashes ++ after) :=
    infix_append_ends fun l hl hne hsuffix =>
      hbody.notMem (hsuffix.subset ((hyphen mark hmark).2 l hl hne))
  have hnone : ¬ mark <:+: body := fun hpart => hbody.notMem (hpart.subset (hyphen mark hmark).1)
  rw [hall, infix_append_clear (hopening mark hmark).1, hfirst, hsecond,
    infix_append_ends (hclosing mark hmark).1]
  simp only [(hopening mark hmark).2, hnone, (hclosing mark hmark).2, false_or]

/-- A text around the block of a public key holds the mark of a private key exactly if what stands around the
block does. -/
theorem holdsPrivate_around (hbody : Pem.IsBody body) :
    HoldsPrivate (before ++ (beginPublic ++ (body ++ endPublic)) ++ after) ↔
      HoldsPrivate (before ++ Pem.dashes) ∨ HoldsPrivate (Pem.dashes ++ after) := by
  unfold HoldsPrivate
  rw [← exists_or]
  refine exists_congr fun mark => ?_
  rw [← and_or_left]
  exact and_congr_right fun hmark => mark_around hmark hbody

theorem isBody_wrap (contents : Bytes) : Pem.IsBody ('\n' :: Pem.wrap (Base64.encode contents)) where
  notMem := by
    have hletter : Base64.isLetter '-' = false := by decide
    intro hmem
    rcases Pem.mem_wrapUpTo ((List.mem_cons.mp hmem).resolve_left (by decide)) with h | h
    · rw [Base64.isLetter_of_mem_encode h] at hletter
      cases hletter
    · exact absurd h (by decide)
  eq_cons := ⟨_, _, rfl, .inl rfl⟩

/-- The document of a public key holds no mark of a private key. -/
theorem PublicKey.not_holdsPrivate_document (key : PublicKey) : ¬ HoldsPrivate key.document.toList := by
  have hdocument : key.document.toList = [] ++ (beginPublic ++
      ('\n' :: Pem.wrap (Base64.encode key.info.encode) ++ endPublic)) ++ ['\n'] := by
    have hfirst : beginPublic = Pem.beginMark ++ publicLabel.toList ++ Pem.dashes := by decide
    have hlast : endPublic = Pem.endMark ++ publicLabel.toList ++ Pem.dashes := by decide
    rw [hfirst, hlast, document, Pem.Block.encode, String.toList_ofList, Pem.Block.encodeChars]
    simp only [List.append_assoc, List.cons_append, List.nil_append]
  rw [hdocument, holdsPrivate_around (isBody_wrap _)]
  decide

end KeyCustody.Rsa
