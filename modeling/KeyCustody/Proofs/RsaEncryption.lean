import KeyCustody.Proofs.EncryptedInfo
import KeyCustody.Proofs.Formats
import KeyCustody.Proofs.ImportSoundness
/-! # Encryption loses no RSA key

A text from which a private key is read without a password is encrypted under every password into a document
that opens under it to the same key information, whatever algorithm that is for. The one limit is that of
encodings: key information that is nearly as long as they may be is too long when it is filled up to whole
blocks and has its parameters beside it. -/

namespace KeyCustody.Rsa

open Der PrivateKey

variable {text password : String} {scheme : Scheme} {k : KeyPair} {block : Pem.Block}
  {info : PrivateInfo} {rounds : Nat} {salt iv : Bytes}

/-- The private key in a text, encrypted under a password. -/
def encryptText (text password : String) (rounds : Nat) (salt iv : Bytes) : Outcome String := do
  encryptedDocument (← privateInfo text) password rounds salt iv

/-- What is written of an RSA key under a password is its private half, encrypted with the settings' count
and with random bytes. -/
theorem privatePayload_encryptText (c : Custodian) (hkind : k.keytype = .rsa) (hpassword : password ≠ "")
    (w : World) :
    ((c.privatePayload k password).runIn w).1 =
      encryptText k.keyval.privateHalf password c.settings.iterations.toNat (w.draw 16)
        ({ w with drawn := w.drawn + 16 }.draw 16) := by
  unfold Custodian.privatePayload encryptText
  split
  · rw [if_neg hpassword, Action.runIn_bind, Action.runIn_ofOutcome]
    cases privateInfo k.keyval.privateHalf with
    | error e => rfl
    | ok info => rfl
  · exact absurd hkind ‹_›

/-! ## What encryption starts from -/

theorem privateInfo_eq_ok :
    privateInfo text = .ok info ↔
      ∃ block, block? (Text.trim text.toList) = some block ∧
        PrivateInfo.decode? block.contents = some info := by
  simp only [privateInfo, wellFormed, Outcome.bind_eq_ok, Outcome.ofOption_eq_ok]

theorem length_contents_le (h : block? (Text.trim text.toList) = some block) :
    4 * block.contents.length ≤ 3 * text.length := by
  obtain ⟨block', hdecode, h⟩ := Option.bind_eq_some_iff.mp h
  obtain ⟨e, -, h⟩ := Option.bind_eq_some_iff.mp h
  split_ifs at h
  cases h
  have hlength := Pem.length_contents_le hdecode
  have htrim := (Text.trim_isInfix text.toList).length_le
  rw [String.length_toList] at htrim
  omega

/-- A text whose key information is too long to be encrypted is longer than encodings may be. -/
theorem maxLength_lt_of_fullLength (hblock : block? (Text.trim text.toList) = some block)
    (hdecode : PrivateInfo.decode? block.contents = some info) (hrounds : rounds ≤ maxRounds)
    (hlong : maxLength < EncryptedInfo.fullLength info.encode.length rounds) : maxLength < text.length := by
  obtain ⟨-, hshorter, -⟩ := PrivateInfo.encode_of_decode? hdecode
  have hcharacters := length_contents_le hblock
  have hcount := Derivation.length_natural_rounds (Nat.lt_of_le_of_lt hrounds (by decide))
  have hmax := maxLength_eq
  rw [EncryptedInfo.fullLength] at hlong
  omega

theorem block?_encode (hlength : info.encode.length ≤ maxLength) :
    block? (Text.trim (Pem.Block.mk privateLabel info.encode).encode.toList) =
      some ⟨privateLabel, info.encode⟩ := by
  rw [Pem.Block.encode, String.toList_ofList, Pem.trim_encodeChars]
  exact block?_framed isLabel_privateLabel hlength

theorem privateInfo_encode (halgorithm : info.algorithm.element.algorithm? = some info.algorithm)
    (hlength : info.encode.length ≤ maxLength) :
    privateInfo (Pem.Block.mk privateLabel info.encode).encode = .ok info :=
  privateInfo_eq_ok.mpr ⟨_, block?_encode hlength, PrivateInfo.decode?_encode halgorithm hlength⟩

/-! ## What encryption gives -/

/-- Key information is encrypted into a document that opens to it, or it is refused for its length. -/
theorem encryptedDocument_opens (hinfo : PrivateInfo.decode? info.encode = some info)
    (hlength : info.encode.length ≤ maxLength) (hpassword : password ≠ "") (hrounds : rounds ≤ maxRounds)
    (hsalt : salt.length = 16) (hiv : iv.length = 16) :
    (EncryptedInfo.fullLength info.encode.length rounds ≤ maxLength →
        ∃ document block, encryptedDocument info password rounds salt iv = .ok document ∧
          block? (Text.trim document.toList) = some block ∧ Opens block info password) ∧
      (maxLength < EncryptedInfo.fullLength info.encode.length rounds →
        encryptedDocument info password rounds salt iv = .error .rsaEncryption) := by
  have hcount : rounds < Nat.pow 2 32 := Nat.lt_of_le_of_lt hrounds (by decide)
  have hallowed : ¬ rounds > maxRounds := Nat.not_lt.mpr hrounds
  have hmax := maxLength_eq
  obtain ⟨data, hencrypt, hdata, hdecrypt⟩ :=
    EncryptedInfo.exists_encrypt? info.encode (Text.utf8 password) salt rounds hiv
  obtain ⟨contents, hencode⟩ : ∃ contents,
      (EncryptedInfo.sealed salt rounds iv data).encode? = some contents :=
    ⟨_, EncryptedInfo.encode?_standard _ _ _ _⟩
  have hfits : contents.length ≤ maxLength ↔ _ :=
    EncryptedInfo.length_encode?_le_iff hsalt hcount hiv hdata (by omega) hencode
  have hdocument : encryptedDocument info password rounds salt iv = Outcome.ofOption .rsaEncryption
      (if contents.length ≤ maxLength then some (Pem.Block.mk encryptedLabel contents).encode
        else none) := by
    simp only [encryptedDocument, if_neg hallowed, hencrypt, hencode, Option.bind_eq_bind,
      Option.bind_some, Option.pure_def]
  constructor
  · intro hfull
    have hshort := hfits.mpr hfull
    rw [if_pos hshort] at hdocument
    exact ⟨_, _, hdocument, block?_encrypted hencode hshort, .encrypted rfl hpassword
      (EncryptedInfo.decode?_encode? hcount hiv hencode hshort) hdecrypt hinfo⟩
  · intro hlong
    rw [if_neg (hfits.not.mpr (Nat.not_le.mpr hlong))] at hdocument
    exact hdocument

/-- The key information in a text comes back from its encryption, unless it is too long. -/
theorem encryptText_opens (hblock : block? (Text.trim text.toList) = some block)
    (hdecode : PrivateInfo.decode? block.contents = some info) (hpassword : password ≠ "")
    (hrounds : rounds ≤ maxRounds) (hsalt : salt.length = 16) (hiv : iv.length = 16) :
    (EncryptedInfo.fullLength info.encode.length rounds ≤ maxLength →
        ∃ document block, encryptText text password rounds salt iv = .ok document ∧
          block? (Text.trim document.toList) = some block ∧ Opens block info password) ∧
      (maxLength < EncryptedInfo.fullLength info.encode.length rounds →
        encryptText text password rounds salt iv = .error .rsaEncryption) := by
  have htext : encryptText text password rounds salt iv =
      encryptedDocument info password rounds salt iv := by
    rw [encryptText, privateInfo_eq_ok.mpr ⟨block, hblock, hdecode⟩, Outcome.ok_bind]
  obtain ⟨-, hle, hlength⟩ := PrivateInfo.encode_of_decode? hdecode
  rw [htext]
  exact encryptedDocument_opens (PrivateInfo.decode?_encode_of_decode? hdecode) (Nat.le_trans hle hlength)
    hpassword hrounds hsalt hiv

/-- A key that is read without a password is read under every password from what its text is encrypted to.
Encryption fails if and only if its outcome would be longer than encodings may be. -/
theorem readPrivate_encryptText (hread : readPrivate text "" scheme = .ok k) (hpassword : password ≠ "")
    (hrounds : rounds ≤ maxRounds) (hsalt : salt.length = 16) (hiv : iv.length = 16) :
    ∃ info, privateInfo text = .ok info ∧
      (EncryptedInfo.fullLength info.encode.length rounds ≤ maxLength →
        ∃ document, encryptText text password rounds salt iv = .ok document ∧
          readPrivate document password scheme = .ok k) ∧
      (maxLength < EncryptedInfo.fullLength info.encode.length rounds →
        encryptText text password rounds salt iv = .error .rsaEncryption) := by
  obtain ⟨key, hunlock, hkey⟩ := readPrivate_eq_ok.mp hread
  obtain ⟨block, info, hblock, hopens, hinfo⟩ := unlock_eq_ok.mp hunlock
  have hdecode : PrivateInfo.decode? block.contents = some info := by
    cases hopens with
    | plain _ hdecode => exact hdecode
    | encrypted _ hgiven => exact absurd rfl hgiven
  obtain ⟨hfits, hlong⟩ := encryptText_opens hblock hdecode hpassword hrounds hsalt hiv
  refine ⟨info, privateInfo_eq_ok.mpr ⟨block, hblock, hdecode⟩, fun hfull => ?_, hlong⟩
  obtain ⟨document, block', hdocument, hblock', hopens'⟩ := hfits hfull
  exact ⟨document, hdocument, readPrivate_eq_ok.mpr
    ⟨key, unlock_eq_ok.mpr ⟨block', info, hblock', hopens', hinfo⟩, hkey⟩⟩

/-- A key of toy size and the greatest count. -/
theorem readPrivate_encryptText_toy :
    ∃ text k document, Custodian.toyRsa.document? = some text ∧ readPrivate text "" .rsaPss = .ok k ∧
      encryptText text "secret" maxRounds (List.replicate 16 7) (List.replicate 16 0xFF) =
        .ok document ∧
      readPrivate document "secret" .rsaPss = .ok k := by
  have hsome : Custodian.toyRsa.document?.isSome = true := by decide
  have hshort : ∀ info ∈ Custodian.toyRsa.info?,
      EncryptedInfo.fullLength info.encode.length maxRounds ≤ maxLength := by
    decide +kernel
  obtain ⟨text, htext⟩ := Option.isSome_iff_exists.mp hsome
  have hread : readPrivate text "" .rsaPss = .ok _ :=
    readPrivate_eq_ok.mpr ⟨_, unlock_document (by decide) htext, text, htext, rfl, rfl⟩
  have hsalt : (List.replicate 16 (7 : UInt8)).length = 16 := rfl
  have hiv : (List.replicate 16 (0xFF : UInt8)).length = 16 := rfl
  obtain ⟨info, hinfo, hfits, -⟩ :=
    readPrivate_encryptText hread (show "secret" ≠ "" by decide) (Nat.le_refl maxRounds) hsalt hiv
  obtain ⟨block, hblock, hdecode⟩ := privateInfo_eq_ok.mp hinfo
  obtain ⟨info', hinfo', hlength, hblock'⟩ := block?_document htext
  obtain rfl := Option.some.inj (hblock.symm.trans hblock')
  obtain rfl : info = info' :=
    Option.some.inj (hdecode.symm.trans (decode?_info (by decide) hinfo' hlength).1)
  obtain ⟨document, hdocument, hagain⟩ := hfits (hshort info hinfo')
  exact ⟨text, _, document, htext, hread, hdocument, hagain⟩

/-! ## Key information that cannot be encrypted -/

def leading (info : PrivateInfo) : List Element := [natural 1, info.algorithm.element, octetString info.key]

/-- Key information with a public key of zeros that makes it as long as encodings may be. -/
def swollen (info : PrivateInfo) : PrivateInfo :=
  let zeros := List.replicate (maxLength - 13 - ((leading info).flatMap Element.encode).length) 0
  { info with publicKey := some zeros }

theorem length_encode_swollen (hshort : ((leading info).flatMap Element.encode).length ≤ 2 ^ 24) :
    (swollen info).encode.length = maxLength := by
  have hmax := maxLength_eq
  generalize hzeros : List.replicate (maxLength - 13 - ((leading info).flatMap Element.encode).length) (0 : UInt8) =
    zeros
  have hlength : zeros.length = maxLength - 13 - ((leading info).flatMap Element.encode).length := by
    rw [← hzeros, List.length_replicate]
  have hpublic : (Element.mk PrivateInfo.publicKeyTag (0 :: zeros)).encode.length = zeros.length + 7 :=
    Element.length_encode_of_long (by simp only [List.length_cons]; omega) (by simp only [List.length_cons]; omega)
  have hmembers : ((leading info ++ [Element.mk PrivateInfo.publicKeyTag (0 :: zeros)]).flatMap
      Element.encode).length = maxLength - 6 := by
    rw [List.flatMap_append, List.length_append, List.flatMap_singleton, hpublic]
    omega
  have hencode : (swollen info).encode =
      (sequence (leading info ++ [Element.mk PrivateInfo.publicKeyTag (0 :: zeros)])).encode := by
    rw [swollen, hzeros]
    rfl
  rw [hencode, Element.length_encode_of_long (by simp only [Der.sequence]; omega) (by simp only [Der.sequence]; omega)]
  simp only [Der.sequence]
  omega

def swollenText (info : PrivateInfo) : String := (Pem.Block.mk privateLabel (swollen info).encode).encode

theorem encryptText_swollenText (halgorithm : info.algorithm.element.algorithm? = some info.algorithm)
    (hshort : ((leading info).flatMap Element.encode).length ≤ 2 ^ 24) (hpassword : password ≠ "")
    (hrounds : rounds ≤ maxRounds) (hsalt : salt.length = 16) (hiv : iv.length = 16) :
    encryptText (swollenText info) password rounds salt iv = .error .rsaEncryption := by
  have hlength := length_encode_swollen hshort
  have hdecode : PrivateInfo.decode? (swollen info).encode = some (swollen info) :=
    PrivateInfo.decode?_encode halgorithm (Nat.le_of_eq hlength)
  refine (encryptText_opens (block?_encode (Nat.le_of_eq hlength)) hdecode hpassword hrounds hsalt hiv).2 ?_
  rw [hlength, EncryptedInfo.fullLength]
  omega

/-- Not every key that is read can be encrypted: the toy key is read from a text of more than three hundred
million characters, to which encryption can add nothing. -/
theorem encryptText_toy_swollen :
    ¬ ∀ (text : String) (scheme : Scheme) (k : KeyPair) (password : String) (rounds : Nat) (salt iv : Bytes),
      readPrivate text "" scheme = .ok k → password ≠ "" → 0 < rounds → rounds ≤ maxRounds →
        salt.length = 16 → iv.length = 16 →
          ∃ document, encryptText text password rounds salt iv = .ok document ∧
            readPrivate document password scheme = .ok k := by
  intro h
  have hsound : Custodian.toyRsa.isSound = true := by decide
  have hshort : ∀ info ∈ Custodian.toyRsa.info?, info.encode.length ≤ maxLength ∧
      ((leading info).flatMap Element.encode).length ≤ 2 ^ 24 := by
    decide +kernel
  obtain ⟨text, htext⟩ := Option.isSome_iff_exists.mp (show Custodian.toyRsa.document?.isSome = true by decide)
  obtain ⟨info, hinfo, -⟩ := block?_document htext
  obtain ⟨hlength, hleading⟩ := hshort info hinfo
  have halgorithm : info.algorithm.element.algorithm? = some info.algorithm :=
    (PrivateInfo.encode_of_decode? (decode?_info hsound hinfo hlength).1).1
  have hswollen := Nat.le_of_eq (length_encode_swollen hleading)
  have hkey : ofInfo? (swollen info) = some Custodian.toyRsa := (decode?_info hsound hinfo hlength).2
  have hunlock : unlock (swollenText info) "" = .ok Custodian.toyRsa := unlock_eq_ok.mpr
    ⟨_, _, block?_encode hswollen, .plain rfl (PrivateInfo.decode?_encode halgorithm hswollen), hkey⟩
  have hread : readPrivate (swollenText info) "" .rsaPss = .ok _ :=
    readPrivate_eq_ok.mpr ⟨_, hunlock, text, htext, rfl, rfl⟩
  have hsalt : (List.replicate 16 (7 : UInt8)).length = 16 := rfl
  obtain ⟨document, hdocument, -⟩ :=
    h _ _ _ "secret" 1 _ _ hread (by decide) Nat.one_pos (by decide) hsalt hsalt
  rw [encryptText_swollenText halgorithm hleading (by decide) (by decide) hsalt hsalt] at hdocument
  cases hdocument

end KeyCustody.Rsa
