import KeyCustody.Proofs.Pem
import KeyCustody.Proofs.PrivateInfo
import KeyCustody.Rsa.Document
import Mathlib.Data.List.Infix
/-! # RSA keys there and back

The document of a sound RSA key is read as that key. A public key is bounded in size, so its document is
never too long; a private exponent is not, so the document of a private key is there only if it fits. -/

namespace KeyCustody

open Der

/-! ## Public key information -/

theorem Rsa.algorithm?_algorithm : Rsa.algorithm.element.algorithm? = some Rsa.algorithm := by
  decide

/-- Information about a public key of whole bytes is read back, for whatever algorithm it is. -/
theorem PublicInfo.decode?_encode {i : PublicInfo}
    (halgorithm : i.algorithm.element.algorithm? = some i.algorithm) (hunused : i.unused = 0)
    (hlength : i.encode.length ≤ maxLength) : decode? i.encode = some i := by
  obtain ⟨algorithm, unused, key⟩ := i
  obtain rfl : unused = 0 := hunused
  have hmembers : members? (PublicInfo.mk algorithm 0 key).encode =
      some [algorithm.element, ⟨Tag.bitString, 0 :: key⟩] := by
    refine members?_sequence ?_ hlength
    simp only [List.forall_mem_cons]
    exact ⟨rfl, rfl, by simp⟩
  simp only at halgorithm
  simp only [decode?, hmembers, Option.bind_eq_bind, Option.bind_some, Element.valueOf?, if_true, bits?,
    halgorithm]
  rfl

namespace Rsa

variable {b : Pem.Block} {k : PublicKey} {cs rest body mark e : List Char}

/-! ## Blocks -/

theorem isLabel_publicLabel : Pem.IsLabel publicLabel.toList := by
  intro rest
  rfl

theorem isLabel_privateLabel : Pem.IsLabel privateLabel.toList := by
  intro rest
  rfl

theorem isLabel_encryptedLabel : Pem.IsLabel encryptedLabel.toList := by
  intro rest
  rfl

/-- A block around a sequence is read from its text, whatever the lines end in. -/
theorem block?_withLineEnds (he : Pem.IsLineEnd e) {members : List Element} {label : String}
    (hlabel : Pem.IsLabel label.toList) (hlength : (sequence members).encode.length ≤ maxLength) :
    block? (Pem.withLineEnds e (Pem.Block.mk label (sequence members).encode).framed) =
      some ⟨label, (sequence members).encode⟩ := by
  have hdecode := Pem.decodeChars?_withLineEnds he (b := ⟨label, (sequence members).encode⟩) hlabel
    (List.cons_ne_nil _ _)
  have hsingle : single? (sequence members).encode = some (sequence members) :=
    single?_encode rfl hlength
  simp only [block?, hdecode, Option.bind_eq_bind, Option.bind_some, hsingle]
  rfl

theorem block?_framed {members : List Element} {label : String} (hlabel : Pem.IsLabel label.toList)
    (hlength : (sequence members).encode.length ≤ maxLength) :
    block? (Pem.Block.mk label (sequence members).encode).framed =
      some ⟨label, (sequence members).encode⟩ := by
  rw [← Pem.withLineEnds_newline (Pem.Block.framed _)]
  exact block?_withLineEnds (.inl rfl) hlabel hlength

theorem block?_withLineEnds_of_long (he : Pem.IsLineEnd e) {contents : Bytes} {label : String}
    (hlabel : Pem.IsLabel label.toList) (hlength : ¬ contents.length ≤ maxLength) :
    block? (Pem.withLineEnds e (Pem.Block.mk label contents).framed) = none := by
  have hcontents : contents ≠ [] := by
    rintro rfl
    exact hlength (Nat.zero_le _)
  have hdecode := Pem.decodeChars?_withLineEnds he (b := ⟨label, contents⟩) hlabel hcontents
  have hsingle : single? contents = none := by
    rw [Option.eq_none_iff_forall_ne_some]
    exact fun e he => hlength (single?_eq_some he).2
  simp only [block?, hdecode, Option.bind_eq_bind, Option.bind_some, hsingle, Option.bind_none]

theorem fromMark?_mark (hmark : mark ≠ []) (rest : List Char) :
    fromMark? mark (mark ++ rest) = some (mark ++ rest) := by
  cases mark with
  | nil => exact absurd rfl hmark
  | cons c cs =>
    have hprefix := Pem.isPrefixOf_append (c :: cs) rest
    rw [List.cons_append] at hprefix ⊢
    rw [fromMark?, if_pos hprefix]

theorem throughMark?_mark (hmark : mark ≠ []) (rest : List Char) :
    throughMark? mark (mark ++ rest) = some mark := by
  cases mark with
  | nil => exact absurd rfl hmark
  | cons c cs =>
    have hprefix := Pem.isPrefixOf_append (c :: cs) rest
    rw [List.cons_append] at hprefix ⊢
    rw [throughMark?, if_pos hprefix]

/-- Characters where a mark could not begin, whatever follows them. -/
def Clear (mark body : List Char) : Prop := ∀ t ∈ body.tails, t ≠ [] → ¬ mark <+: t ∧ ¬ t <+: mark

instance (mark body : List Char) : Decidable (Clear mark body) :=
  inferInstanceAs (Decidable (∀ t ∈ body.tails, t ≠ [] → ¬ mark <+: t ∧ ¬ t <+: mark))

theorem Clear.of_cons {c : Char} (h : Clear mark (c :: body)) (rest : List Char) :
    ¬ mark.isPrefixOf (c :: (body ++ rest)) = true ∧ Clear mark body := by
  have hhere := h (c :: body) (by simp) (List.cons_ne_nil c body)
  refine ⟨fun hmark => ?_, fun t ht hne => h t ?_ hne⟩
  · rw [List.isPrefixOf_iff_prefix, ← List.cons_append] at hmark
    rcases List.prefix_or_prefix_of_prefix hmark (List.prefix_append (c :: body) rest) with h | h
    · exact hhere.1 h
    · exact hhere.2 h
  · rw [List.mem_tails] at ht ⊢
    exact ht.trans (List.suffix_cons c body)

theorem throughMark?_append (hbody : Clear mark body) (rest : List Char) :
    throughMark? mark (body ++ rest) = (throughMark? mark rest).map (body ++ ·) := by
  induction body with
  | nil =>
    rw [List.nil_append]
    cases throughMark? mark rest <;> rfl
  | cons c body ih =>
    obtain ⟨hmark, hbody⟩ := hbody.of_cons rest
    rw [List.cons_append, throughMark?, if_neg hmark, ih hbody, Option.map_map]
    rfl

theorem fromMark?_append (hbody : Clear mark body) (rest : List Char) :
    fromMark? mark (body ++ rest) = fromMark? mark rest := by
  induction body with
  | nil => rfl
  | cons c body ih =>
    obtain ⟨hmark, hbody⟩ := hbody.of_cons rest
    rw [List.cons_append, fromMark?, if_neg hmark, ih hbody]

/-- A public document is found in a text, but for its last line end, whatever follows it and whatever its
lines end in, if the mark at its start could not begin before it. -/
theorem publicBlock_among (he : Pem.IsLineEnd e) {before : List Char} (hbefore : Clear beginPublic before)
    (contents : Bytes) (after : List Char) :
    publicBlock (before ++ (Pem.withLineEnds e (Pem.Block.mk publicLabel contents).encodeChars ++ after)) =
      Pem.withLineEnds e (Pem.Block.mk publicLabel contents).framed := by
  let lines := Pem.wrap (Base64.encode contents)
  have hfirst : beginPublic = Pem.beginMark ++ publicLabel.toList ++ Pem.dashes := by decide
  have hlast : endPublic = Pem.endMark ++ publicLabel.toList ++ Pem.dashes := by decide
  have hplain : '\n' ∉ beginPublic ∧ '\n' ∉ endPublic := by decide
  have hframed : Pem.withLineEnds e (Pem.Block.mk publicLabel contents).framed =
      (beginPublic ++ e) ++ (Pem.withLineEnds e lines ++ endPublic) := by
    have hmarks : (Pem.Block.mk publicLabel contents).framed =
        beginPublic ++ '\n' :: (lines ++ endPublic) := by
      rw [hfirst, hlast]
      simp only [Pem.Block.framed, List.append_assoc, lines]
    simp only [hmarks, Pem.withLineEnds_append, Pem.withLineEnds_newline_cons,
      Pem.withLineEnds_of_notMem hplain.1, Pem.withLineEnds_of_notMem hplain.2, List.append_assoc]
  have hwhole : Pem.withLineEnds e (Pem.Block.mk publicLabel contents).encodeChars ++ after =
      (beginPublic ++ e) ++ (Pem.withLineEnds e lines ++ (endPublic ++ (e ++ after))) := by
    have hend : Pem.withLineEnds e ['\n'] = e := by
      rw [Pem.withLineEnds_newline_cons]
      exact List.append_nil e
    rw [Pem.Block.encodeChars_eq, Pem.withLineEnds_append, hframed, hend]
    simp only [List.append_assoc]
  have hbegin : Clear endPublic (beginPublic ++ e) := by
    rcases he with rfl | rfl | rfl <;> decide
  have hlines : Clear endPublic (Pem.withLineEnds e lines) := by
    have hnone : '-' ∉ lines := by
      intro h
      rcases Pem.mem_wrapUpTo h with h | h
      · cases Base64.isLetter_of_mem_encode h
      · cases h
    intro t ht hne
    cases t with
    | nil => exact absurd rfl hne
    | cons c t =>
      have hdash : c ≠ '-' := by
        rintro rfl
        exact Pem.hyphen_notMem_withLineEnds he hnone (((List.mem_tails _ _).mp ht).subset List.mem_cons_self)
      have hend : ∃ rest, endPublic = '-' :: rest := ⟨_, rfl⟩
      obtain ⟨rest, hrest⟩ := hend
      rw [hrest, List.cons_prefix_cons, List.cons_prefix_cons]
      exact ⟨fun h => hdash h.1.symm, fun h => hdash h.1⟩
  have hfrom : fromMark? beginPublic
      (before ++ (Pem.withLineEnds e (Pem.Block.mk publicLabel contents).encodeChars ++ after)) =
        some (Pem.withLineEnds e (Pem.Block.mk publicLabel contents).encodeChars ++ after) := by
    rw [fromMark?_append hbefore, hwhole, List.append_assoc beginPublic]
    exact fromMark?_mark (by decide) _
  have hthrough : throughMark? endPublic
      (Pem.withLineEnds e (Pem.Block.mk publicLabel contents).encodeChars ++ after) =
        some (Pem.withLineEnds e (Pem.Block.mk publicLabel contents).framed) := by
    rw [hwhole, throughMark?_append hbegin, throughMark?_append hlines,
      throughMark?_mark (by decide), hframed]
    rfl
  simp only [publicBlock, hfrom, hthrough]

/-! ## Public keys -/

theorem bitLength_eq {n bits : Nat} (hlow : 2 ^ bits ≤ n) (hhigh : n < 2 ^ (bits + 1)) :
    bitLength n = bits + 1 := by
  have hne : n ≠ 0 := Nat.ne_of_gt (Nat.lt_of_lt_of_le (Nat.two_pow_pos bits) hlow)
  rw [bitLength, if_neg hne, (Nat.log2_eq_iff hne).mpr ⟨hlow, hhigh⟩]

theorem bitLength_le {n bits : Nat} (h : bitLength n ≤ bits) : n < 2 ^ bits := by
  rw [bitLength] at h
  by_cases hn : n = 0
  · rw [hn]
    exact Nat.two_pow_pos bits
  · rw [if_neg hn] at h
    exact Nat.lt_of_lt_of_le Nat.lt_log2_self (Nat.pow_le_pow_right (by decide) h)

namespace PublicKey

theorem encode_info (k : PublicKey) :
    k.info.encode = (sequence [algorithm.element, bitString k.element.encode]).encode := rfl

/-- The document of a public key under the limit for public keys is never too long. -/
theorem length_info_le (h : k.isSound maxPublicBits = true) : k.info.encode.length ≤ maxLength := by
  simp only [isSound, Bool.and_eq_true, decide_eq_true_eq] at h
  have hmodulus : (natural k.modulus).encode.length ≤ _ :=
    length_natural_le (bitLength_le h.1.1.1.1.1) (by decide) (by decide)
  have hexponent : (natural k.exponent).encode.length ≤ _ :=
    length_natural_le (show k.exponent < 2 ^ 33 from h.1.2) (by decide) (by decide)
  have hnumbers : k.element.encode.length ≤ _ :=
    length_sequence_le (natural k.modulus) (natural k.exponent)
  have hbits := (bitString k.element.encode).length_encode_le
  have hlength := length_sequence_le algorithm.element (bitString k.element.encode)
  have halgorithm : algorithm.element.encode.length = 15 := by decide
  rw [encode_info]
  simp only [bitString, List.length_cons] at hbits hlength ⊢
  simp only [maxPublicBits, maxLength] at hmodulus ⊢
  omega

theorem numbers?_encode (h : k.element.encode.length ≤ maxLength) :
    numbers? k.element.encode = some k := by
  have hknown : ∀ e ∈ [k.modulus, k.exponent].map natural, Tag.isKnown e.tag = true :=
    fun _ he => known_natural he
  have hmembers : members? k.element.encode = some ([k.modulus, k.exponent].map natural) :=
    members?_sequence hknown h
  simp only [numbers?, hmembers, List.map_cons, List.map_nil, Option.bind_eq_bind, Option.bind_some,
    natural?_natural, Option.pure_def]

/-- The document of a public key is read as that key, also among other text and with other line ends, if the
key is sound. Nothing else is read from it. -/
theorem parse_withLineEnds (k : PublicKey) (he : Pem.IsLineEnd e) {before : String}
    (hbefore : Clear beginPublic before.toList) (after : String) :
    parse (before ++ String.ofList (Pem.withLineEnds e k.document.toList) ++ after) =
      if k.isSound maxPublicBits then .ok k else refuse .publicHalf .malformed := by
  let text := before ++ String.ofList (Pem.withLineEnds e k.document.toList) ++ after
  have hblock : publicBlock text.toList =
      Pem.withLineEnds e (Pem.Block.mk publicLabel k.info.encode).framed := by
    rw [String.toList_append, String.toList_append, List.append_assoc, String.toList_ofList, document,
      Pem.Block.encode, String.toList_ofList, publicBlock_among he hbefore]
  change parse text = _
  by_cases hlength : k.info.encode.length ≤ maxLength
  · have hcontents : block? (publicBlock text.toList) = some ⟨publicLabel, k.info.encode⟩ :=
      hblock ▸ block?_withLineEnds he isLabel_publicLabel hlength
    have hinfo : PublicInfo.decode? k.info.encode = some k.info :=
      PublicInfo.decode?_encode algorithm?_algorithm rfl hlength
    have hkey : k.element.encode.length ≤ maxLength := by
      have hbits : (bitString k.element.encode).value.length ≤ k.info.encode.length := by
        rw [encode_info]
        exact length_value_le_of_mem (by simp)
      simp only [bitString, List.length_cons] at hbits
      omega
    have hnumbers : numbers? k.info.key = some k := numbers?_encode hkey
    have halgorithm : checkAlgorithm .publicHalf k.info.algorithm.name = .ok () := by rfl
    simp only [parse, hcontents, hinfo, hnumbers, halgorithm, wellFormed, Outcome.ofOption, bind,
      Except.bind, ne_eq, not_true_eq_false, if_false]
    rfl
  · have hcontents : block? (publicBlock text.toList) = none :=
      hblock ▸ block?_withLineEnds_of_long he isLabel_publicLabel hlength
    rw [if_neg fun hsound => hlength (length_info_le hsound), parse, hcontents]
    rfl

theorem parse_among_eq (k : PublicKey) {before : String} (hbefore : Clear beginPublic before.toList)
    (after : String) :
    parse (before ++ k.document ++ after) =
      if k.isSound maxPublicBits then .ok k else refuse .publicHalf .malformed := by
  have hparse := k.parse_withLineEnds (.inl rfl) hbefore after
  rwa [Pem.withLineEnds_newline, String.ofList_toList] at hparse

theorem parse_among (h : k.isSound maxPublicBits = true) {before : String}
    (hbefore : Clear beginPublic before.toList) (after : String) :
    parse (before ++ k.document ++ after) = .ok k := by
  rw [parse_among_eq k hbefore, if_pos h]

theorem parse_document_eq (k : PublicKey) :
    parse k.document = if k.isSound maxPublicBits then .ok k else refuse .publicHalf .malformed := by
  have hparse := k.parse_among_eq (show Clear beginPublic "".toList by decide) ""
  rwa [String.empty_append, String.append_empty] at hparse

theorem parse_document (h : k.isSound maxPublicBits = true) : parse k.document = .ok k := by
  rw [parse_document_eq, if_pos h]

theorem isSound_of_parse {text : String} (h : parse text = .ok k) :
    k.isSound maxPublicBits = true := by
  unfold parse at h
  obtain ⟨block, -, h⟩ := Outcome.bind_eq_ok.mp h
  split_ifs at h with hlabel
  · cases h
  · obtain ⟨info, -, h⟩ := Outcome.bind_eq_ok.mp h
    obtain ⟨u, -, h⟩ := Outcome.bind_eq_ok.mp h
    obtain ⟨key, -, h⟩ := Outcome.bind_eq_ok.mp h
    split_ifs at h with hsound
    · cases h
      exact hsound
    · cases h

end PublicKey

/-! ## Private keys -/

namespace PrivateKey

variable {k : PrivateKey} {document : String}

theorem encode_info (key : Bytes) :
    (PrivateInfo.mk algorithm key none).encode =
      (sequence [natural 0, algorithm.element, octetString key]).encode := rfl

theorem length_key_le {key : Bytes}
    (h : (PrivateInfo.mk algorithm key none).encode.length ≤ maxLength) : key.length ≤ maxLength := by
  have hoctets : (octetString key).value.length ≤ (PrivateInfo.mk algorithm key none).encode.length := by
    rw [encode_info]
    exact length_value_le_of_mem (by simp)
  exact Nat.le_trans hoctets h

theorem ofNumbers?_encode {e : Element} (hsound : k.isSound = true) (helement : k.element? = some e)
    (hlength : e.encode.length ≤ maxLength) : ofNumbers? e.encode = some k := by
  rw [element?] at helement
  obtain ⟨coefficient, -, he⟩ := Option.bind_eq_some_iff.mp helement
  cases he
  have hmembers := members?_sequence (fun _ he => known_natural he) hlength
  simp only [ofNumbers?, hmembers, Option.bind_eq_bind, Option.bind_some, mapM_natural?, hsound,
    if_true]

/-- The key information of a sound private key is read as that key. -/
theorem decode?_info {info : PrivateInfo} (hsound : k.isSound = true) (hinfo : k.info? = some info)
    (hlength : info.encode.length ≤ maxLength) :
    PrivateInfo.decode? info.encode = some info ∧ ofInfo? info = some k := by
  rw [info?] at hinfo
  obtain ⟨e, he, hinfo⟩ := Option.bind_eq_some_iff.mp hinfo
  cases hinfo
  refine ⟨PrivateInfo.decode?_encode algorithm?_algorithm hlength, ?_⟩
  rw [ofInfo?, if_pos rfl]
  exact ofNumbers?_encode hsound he (length_key_le hlength)

theorem block?_document (hdocument : k.document? = some document) :
    ∃ info, k.info? = some info ∧ info.encode.length ≤ maxLength ∧
      block? (Text.trim document.toList) = some ⟨privateLabel, info.encode⟩ := by
  rw [document?] at hdocument
  obtain ⟨info, hinfo, hdocument⟩ := Option.bind_eq_some_iff.mp hdocument
  simp only at hdocument
  split_ifs at hdocument with hlength
  · obtain rfl := Option.some.inj hdocument
    refine ⟨info, hinfo, hlength, ?_⟩
    rw [Pem.Block.encode, String.toList_ofList, Pem.trim_encodeChars]
    exact block?_framed isLabel_privateLabel hlength

/-- The document of a sound private key is read as that key. -/
theorem parse_document (hsound : k.isSound = true) (hdocument : k.document? = some document) :
    parse document = .ok k := by
  obtain ⟨info, hinfo, hlength, hblock⟩ := block?_document hdocument
  obtain ⟨hdecode, hkey⟩ := decode?_info hsound hinfo hlength
  simp only [parse, hblock, hdecode, Option.bind_eq_bind, Option.bind_some, hkey]
  rfl

theorem document_ne_empty (hdocument : k.document? = some document) : document ≠ "" := by
  rw [document?] at hdocument
  obtain ⟨info, -, hdocument⟩ := Option.bind_eq_some_iff.mp hdocument
  simp only at hdocument
  split_ifs at hdocument
  exact Option.some.inj hdocument ▸ Pem.Block.encode_ne_empty

theorem isSound_publicKey (h : k.isSound = true) : k.publicKey.isSound maxPublicBits = true := by
  simp only [isSound, PublicKey.isSound, Bool.and_eq_true, decide_eq_true_eq] at h ⊢
  refine ⟨⟨⟨⟨⟨?_, h.1.1.1.1.1.1.2⟩, h.1.1.1.1.1.2⟩, h.1.1.1.1.2⟩, h.1.1.1.2⟩, h.1.1.2⟩
  exact Nat.le_trans h.1.1.1.1.1.1.1 (by decide)

/-- A private key that is read out of key information is sound. -/
theorem isSound_of_ofInfo? {i : PrivateInfo} (h : ofInfo? i = some k) : k.isSound = true := by
  rw [ofInfo?] at h
  split_ifs at h
  rw [ofNumbers?] at h
  obtain ⟨members, -, h⟩ := Option.bind_eq_some_iff.mp h
  obtain ⟨ns, -, h⟩ := Option.bind_eq_some_iff.mp h
  split at h
  · simp only at h
    split_ifs at h with hsound
    cases h
    exact hsound
  · cases h

theorem parse_eq_ok {text : String} :
    parse text = .ok k ↔ ∃ block info, block? (Text.trim text.toList) = some block ∧
      block.label = privateLabel ∧ PrivateInfo.decode? block.contents = some info ∧
        ofInfo? info = some k := by
  rw [parse, wellFormed, Outcome.ofOption_eq_ok]
  constructor
  · intro h
    obtain ⟨block, hblock, h⟩ := Option.bind_eq_some_iff.mp h
    split_ifs at h with hlabel
    · cases h
    · obtain ⟨info, hinfo, hkey⟩ := Option.bind_eq_some_iff.mp h
      exact ⟨block, info, hblock, not_not.mp hlabel, hinfo, hkey⟩
  · rintro ⟨block, info, hblock, hlabel, hinfo, hkey⟩
    simp only [hblock, Option.bind_eq_bind, Option.bind_some, hlabel, ne_eq, not_true_eq_false, if_false,
      hinfo, hkey]

theorem isSound_of_parse {text : String} (h : parse text = .ok k) : k.isSound = true := by
  obtain ⟨block, info, -, -, -, hkey⟩ := parse_eq_ok.mp h
  exact isSound_of_ofInfo? hkey

/-! ### With and without a password -/

/-- The key information that a block opens to: it is encrypted exactly if a password is given. -/
inductive Opens (block : Pem.Block) (info : PrivateInfo) : String → Prop where
  | plain : block.label = privateLabel → PrivateInfo.decode? block.contents = some info →
      Opens block info ""
  | encrypted {password : String} {i : EncryptedInfo} {plain : Bytes} :
      block.label = encryptedLabel → password ≠ "" → EncryptedInfo.decode? block.contents = some i →
      i.decrypt? (Text.utf8 password) = some plain → PrivateInfo.decode? plain = some info →
      Opens block info password

theorem checkAlgorithm_of_ofInfo? {info : PrivateInfo} (h : ofInfo? info = some k) :
    checkAlgorithm .privateHalf info.algorithm.name = .ok () := by
  rw [ofInfo?] at h
  split_ifs at h with halgorithm
  rw [halgorithm]
  rfl

/-- What key information comes to, once a block has opened to it. -/
theorem unlock_of_opens {text password : String} {block : Pem.Block} {info : PrivateInfo}
    (hblock : block? (Text.trim text.toList) = some block) (hopens : Opens block info password) :
    unlock text password = (checkAlgorithm .privateHalf info.algorithm.name >>= fun _ =>
      wellFormed .privateHalf (ofInfo? info)) := by
  cases hopens with
  | plain hlabel hdecode =>
    have hother : privateLabel ≠ encryptedLabel := by decide
    simp only [unlock, hblock, wellFormed, Outcome.ofOption, Outcome.ok_bind, hlabel, if_neg hother,
      if_true, ne_eq, not_true_eq_false, if_false, hdecode]
  | encrypted hlabel hpassword hdecode hdecrypt hplain =>
    simp only [unlock, hblock, wellFormed, Outcome.ofOption, Outcome.ok_bind, hlabel, hdecode, hdecrypt,
      hplain, if_true, if_neg hpassword, Option.bind_some, Option.bind_eq_bind]

/-- The key that a text opens to is the one in the information that its block opens to. -/
theorem unlock_eq_ok {text password : String} :
    unlock text password = .ok k ↔
      ∃ block info, block? (Text.trim text.toList) = some block ∧ Opens block info password ∧
        ofInfo? info = some k := by
  constructor
  · intro h
    have hlast : ∀ info, (checkAlgorithm .privateHalf info.algorithm.name >>= fun _ =>
        wellFormed .privateHalf (ofInfo? info)) = .ok k → ofInfo? info = some k := by
      intro info h
      obtain ⟨u, -, h⟩ := Outcome.bind_eq_ok.mp h
      exact Outcome.ofOption_eq_ok.mp h
    unfold unlock at h
    obtain ⟨block, hblock, h⟩ := Outcome.bind_eq_ok.mp h
    have hblock := Outcome.ofOption_eq_ok.mp hblock
    simp only at h
    split_ifs at h with hencrypted hempty hplain hgiven
    · cases h
    · obtain ⟨i, hi, h⟩ := Outcome.bind_eq_ok.mp h
      obtain ⟨info, hinfo, hkey⟩ := Outcome.bind_eq_ok.mp h
      obtain ⟨plain, hdecrypt, hdecode⟩ := Option.bind_eq_some_iff.mp (Outcome.ofOption_eq_ok.mp hinfo)
      exact ⟨block, info, hblock, .encrypted hencrypted hempty (Outcome.ofOption_eq_ok.mp hi) hdecrypt
        hdecode, hlast info hkey⟩
    · cases h
    · obtain ⟨info, hinfo, hkey⟩ := Outcome.bind_eq_ok.mp h
      obtain rfl := not_not.mp hgiven
      exact ⟨block, info, hblock, .plain hplain (Outcome.ofOption_eq_ok.mp hinfo), hlast info hkey⟩
    · cases h
  · rintro ⟨block, info, hblock, hopens, hkey⟩
    rw [unlock_of_opens hblock hopens, checkAlgorithm_of_ofInfo? hkey, hkey]
    rfl

/-- The document of a sound private key opens to that key, if no password is given. -/
theorem unlock_document (hsound : k.isSound = true) (hdocument : k.document? = some document) :
    unlock document "" = .ok k := by
  obtain ⟨info, hinfo, hlength, hblock⟩ := block?_document hdocument
  obtain ⟨hdecode, hkey⟩ := decode?_info hsound hinfo hlength
  exact unlock_eq_ok.mpr ⟨_, info, hblock, .plain rfl hdecode, hkey⟩

theorem block?_encrypted {i : EncryptedInfo} {contents : Bytes} (hencode : i.encode? = some contents)
    (hlength : contents.length ≤ maxLength) :
    block? (Text.trim (Pem.Block.mk encryptedLabel contents).encode.toList) =
      some ⟨encryptedLabel, contents⟩ := by
  obtain ⟨members, rfl⟩ : ∃ members, contents = (sequence members).encode := by
    unfold EncryptedInfo.encode? at hencode
    split at hencode
    · cases hencode
      exact ⟨_, rfl⟩
    · cases hencode
  rw [Pem.Block.encode, String.toList_ofList, Pem.trim_encodeChars]
  exact block?_framed isLabel_encryptedLabel hlength

/-- An encrypted key opens to the key in the information that is decrypted. -/
theorem unlock_encrypted {i : EncryptedInfo} {contents plain : Bytes} {info : PrivateInfo}
    {password : String} (hencode : i.encode? = some contents) (hlength : contents.length ≤ maxLength)
    (hdecode : EncryptedInfo.decode? contents = some i)
    (hdecrypt : i.decrypt? (Text.utf8 password) = some plain) (hpassword : password ≠ "")
    (hplain : PrivateInfo.decode? plain = some info) (hkey : ofInfo? info = some k) :
    unlock (Pem.Block.mk encryptedLabel contents).encode password = .ok k :=
  unlock_eq_ok.mpr ⟨_, info, block?_encrypted hencode hlength,
    .encrypted rfl hpassword hdecode hdecrypt hplain, hkey⟩

end PrivateKey

end Rsa

end KeyCustody
