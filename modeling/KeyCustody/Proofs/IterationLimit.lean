import KeyCustody.Proofs.EncryptedInfo
import KeyCustody.Proofs.ImportSoundness
import KeyCustody.Proofs.Reading
import KeyCustody.Proofs.RoundTrip
/-! # Iteration counts beyond the limit

An envelope that asks for more iterations than the settings allow is refused, whatever the password. An
encrypted RSA key names its iterations in its own document, and nothing looks at them: how an RSA key is
read does not depend on the settings at all. -/

namespace KeyCustody

/-- The iterations in which an encrypted key derives its cipher's key, if it does so by iteration. -/
def EncryptedInfo.rounds? (i : EncryptedInfo) : Option Nat :=
  match i.encryption with
  | .standard (.pbkdf2 _ rounds _ _) _ _ => some rounds
  | _ => none

/-- The iterations that a text asks for as an encrypted key of some kind. -/
def rounds? (expected : KeyType) (text : String) : Option Nat :=
  match expected with
  | .rsa => do
    let block ← Rsa.block? (Text.trim text.toList)
    if block.label ≠ Rsa.encryptedLabel then none
    (← EncryptedInfo.decode? block.contents).rounds?
  | _ => (Envelope.decode text).toOption.map (·.iterations.toNat)

/-! ## Texts of envelopes -/

namespace Envelope

variable {text : String} {e : Envelope}

theorem fields_of_decode (h : decode text = .ok e) :
    ∃ f fs b, fields (Text.trim text.toList) = f :: fs ∧ fs.length = 4 ∧
      hexField "salt" f = .ok b := by
  unfold decode at h
  split at h
  next f count tag iv ciphertext hfields =>
    obtain ⟨salt, hsalt, -⟩ := Outcome.bind_eq_ok.mp h
    exact ⟨f, _, salt, hfields, rfl, hsalt⟩
  next => cases h

theorem looksLike_of_decode (h : decode text = .ok e) : looksLike text = true := by
  obtain ⟨f, fs, -, hfields, hlength, -⟩ := fields_of_decode h
  rw [looksLike, hfields, List.length_cons, hlength]
  rfl

theorem hexField_brace (name : String) (cs : List Char) :
    ∃ e, hexField name ('\x7b' :: cs) = .error e := by
  have hbytes : Text.utf8 (String.ofList ('\x7b' :: cs)) = 0x7B :: Text.bytes cs := by
    rw [Text.utf8_eq_bytes, String.toList_ofList]
    rfl
  have hnibble : Hex.nibble 0x7B 0 = .error (.badDigit 0x7B 0) := rfl
  rw [hexField, Hex.decode, hbytes, Hex.decodeBytes]
  split_ifs with hodd
  · exact ⟨_, rfl⟩
  · cases hrest : Text.bytes cs with
    | nil => simp [hrest] at hodd
    | cons low rest =>
      rw [Hex.decodePairs, hnibble]
      exact ⟨_, rfl⟩

theorem fields_brace (cs : List Char) : ∃ f fs, fields ('\x7b' :: cs) = ('\x7b' :: f) :: fs := by
  rw [fields]
  · split
    · exact ⟨_, _, rfl⟩
    · exact ⟨_, _, rfl⟩
  · rintro ds ⟨⟩

theorem namedKeyType?_of_decode (h : decode text = .ok e) : namedKeyType? text = none := by
  apply namedKeyType?_eq_none
  intro hbrace
  obtain ⟨f, fs, b, hfields, -, hsalt⟩ := fields_of_decode h
  obtain ⟨cs, hcs⟩ := List.head?_eq_some_iff.mp hbrace
  obtain ⟨ds, hds⟩ : ∃ ds, Text.trim text.toList = '\x7b' :: ds := by
    have hblank : Text.isBlank '\x7b' = false := by decide
    rw [Text.trim, hcs, Text.trimEnd, List.reverse_cons, List.dropWhile_append]
    split_ifs <;> simp [hblank]
  obtain ⟨f', fs', hbegin⟩ := fields_brace ds
  rw [hds, hbegin] at hfields
  obtain ⟨rfl, rfl⟩ := List.cons.inj hfields
  obtain ⟨fault, hfault⟩ := hexField_brace "salt" f'
  rw [hfault] at hsalt
  cases hsalt

end Envelope

namespace Custodian

variable {c : Custodian} {expected : KeyType} {path : Path} {given : Option String} {text : String}
  {n : Nat} {w : World}

/-- An envelope beyond the limit is refused before a key is derived. -/
theorem privateKeyOf_beyond_limit (hkind : expected ≠ .rsa) (hrounds : rounds? expected text = some n)
    (hlimit : c.settings.maxIterations.toNat < n) (password : String) (scheme : Scheme) :
    c.privateKeyOf text expected password scheme = .error (
      if password = "" then .missingPassword expected
      else .envelope (.tooManyIterations n c.settings.maxIterations.toNat)) := by
  obtain ⟨e, hdecode, rfl⟩ : ∃ e, Envelope.decode text = .ok e ∧ e.iterations.toNat = n := by
    have henvelope : ((Envelope.decode text).toOption.map (·.iterations.toNat)) = some n := by
      cases expected with
      | rsa => exact absurd rfl hkind
      | ed25519 => exact hrounds
      | ecdsa => exact hrounds
    cases hdecode : Envelope.decode text with
    | error fault => rw [hdecode] at henvelope; cases henvelope
    | ok e =>
      rw [hdecode] at henvelope
      exact ⟨e, rfl, Option.some.inj henvelope⟩
  by_cases hempty : password = ""
  · subst hempty
    rw [privateKeyOf_plain hkind, if_pos (Envelope.looksLike_of_decode hdecode), if_pos rfl]
  · have hmore : c.settings.maxIterations < e.iterations := hlimit
    rw [privateKeyOf_locked hkind hempty, Envelope.namedKeyType?_of_decode hdecode, if_neg hempty]
    simp only [Envelope.unlockText, hdecode, bind, Except.bind, if_pos hmore]
    rfl

/-- A file that asks for more iterations than the limit allows holds a key only as an RSA key, and
then for every custodian, whatever the limit. An envelope is refused. -/
theorem read_beyond_limit {contents : Bytes} (hcontents : w.tree.read w.here path = .ok contents)
    (htext : Text.ofUtf8? contents = some text) (hrounds : rounds? expected text = some n)
    (hlimit : c.settings.maxIterations.toNat < n) (given : Option String) :
    (∀ k w', (c.readPrivate path expected given).runIn w = (.ok k, w') ↔
      expected = .rsa ∧ ∀ c' : Custodian,
        (c'.readPrivate path expected given).runIn w = (.ok k, w')) ∧
      (expected ≠ .rsa → path.check = .ok () → ∀ password, given = some password →
        (c.readPrivate path expected given).runIn w = (.error (
          if password = "" then .missingPassword expected
          else .envelope (.tooManyIterations n c.settings.maxIterations.toNat)), w)) := by
  refine ⟨fun k w' => ⟨fun h => ?_, fun h => h.2 c⟩, ?_⟩
  · obtain ⟨e, w₁, hrefused⟩ | ⟨password, w₁, hrun⟩ := readPrivate_text hcontents htext expected given
    · rw [hrefused] at h
      cases h
    · by_cases hkind : expected = .rsa
      · refine ⟨hkind, fun c' => ?_⟩
        rw [← h, hrun, hrun, hkind]
        rfl
      · rw [hrun, privateKeyOf_beyond_limit hkind hrounds hlimit] at h
        cases h
  · rintro hkind hpath password rfl
    have htext' : (Action.readText path).runIn w = (.ok text, w) :=
      Action.runIn_readText.mpr ⟨⟨_, hcontents, htext⟩, rfl⟩
    rw [c.readPrivate_given hpath htext', privateKeyOf_beyond_limit hkind hrounds hlimit]

/-! ## A key beyond the limit -/

def strict : Custodian := ⟨{ iterations := 1, maxIterations := 1 }, by decide⟩

def toyEncrypted : EncryptedInfo where
  encryption := .standard (.pbkdf2 [0] 2 none .sha256) .aes128 (List.replicate 16 0)
  data := [128, 138, 225, 111, 112, 41, 49, 160, 84, 148, 172, 20, 33, 84, 9, 165, 78, 74, 94, 93, 12, 3,
    242, 67, 48, 123, 221, 232, 33, 76, 184, 42, 234, 121, 250, 37, 177, 121, 25, 63, 255, 143, 49, 6,
    118, 2, 35, 240, 230, 177, 9, 161, 22, 78, 60, 212, 171, 53, 180, 100, 234, 148, 71, 137]

def toyContents : Bytes := toyEncrypted.encode?.getD []

def toyText : String := (Pem.Block.mk Rsa.encryptedLabel toyContents).encode

def guarded : World :=
  { World.start [] [] fun _ => 0 with tree := ⟨[(["r"], .file (Text.utf8 toyText))]⟩ }

theorem encode?_toyEncrypted : toyEncrypted.encode? = some toyContents := rfl

set_option maxRecDepth 4000 in
theorem length_toyContents : toyContents.length ≤ Der.maxLength := by decide

theorem decode?_toyContents : EncryptedInfo.decode? toyContents = some toyEncrypted :=
  EncryptedInfo.decode?_encode? (by decide) (by decide) encode?_toyEncrypted length_toyContents

theorem rounds?_toyText : rounds? .rsa toyText = some 2 := by
  have hblock := Rsa.PrivateKey.block?_encrypted encode?_toyEncrypted length_toyContents
  simp only [rounds?, toyText, hblock, Option.bind_eq_bind, Option.bind_some, ne_eq,
    not_true_eq_false, if_false, decode?_toyContents]
  rfl

theorem unlock_toyText : Rsa.PrivateKey.unlock toyText "secret" = .ok toyRsa := by
  have hdecrypt : toyEncrypted.decrypt? (Text.utf8 "secret") =
      toyRsa.info?.map PrivateInfo.encode := by
    decide +kernel
  have hshort : ∀ info ∈ toyRsa.info?, info.encode.length ≤ Der.maxLength := by decide
  have hsome : toyRsa.info?.isSome = true := by decide
  obtain ⟨info, hinfo⟩ := Option.isSome_iff_exists.mp hsome
  rw [hinfo] at hdecrypt
  obtain ⟨hplain, hkey⟩ := Rsa.PrivateKey.decode?_info (by decide) hinfo (hshort info hinfo)
  exact Rsa.PrivateKey.unlock_encrypted encode?_toyEncrypted length_toyContents decode?_toyContents
    hdecrypt (by decide) hplain hkey

theorem read_guarded : guarded.tree.read guarded.here ⟨"r"⟩ = .ok (Text.utf8 toyText) := rfl

theorem readPrivate_guarded :
    ∃ k, (strict.readPrivate ⟨"r"⟩ .rsa (some "secret")).runIn guarded = (.ok k, guarded) := by
  have htext : (Action.readText ⟨"r"⟩).runIn guarded = (.ok toyText, guarded) :=
    readText_utf8 read_guarded
  have hpath : (Path.mk "r").check = .ok () := by decide
  have hname : namedKeyType? toyText = none := by
    apply namedKeyType?_eq_none
    rw [toyText, Pem.Block.encode, String.toList_ofList]
    exact fun h => absurd (Option.some.inj h) (by decide)
  have hsome : (Rsa.keyPair toyRsa .rsaPss).toOption.isSome = true := by decide
  obtain ⟨k, hk⟩ := Outcome.exists_ok hsome
  refine ⟨k, ?_⟩
  rw [strict.readPrivate_given hpath htext, privateKeyOf, hname]
  simp only [Rsa.readPrivate, unlock_toyText]
  exact congrArg (·, guarded) hk

theorem read_beyond_limit_guarded :
    ∃ k, (strict.readPrivate ⟨"r"⟩ .rsa (some "secret")).runIn guarded = (.ok k, guarded) ∧
      (default.readPrivate ⟨"r"⟩ .rsa (some "secret")).runIn guarded = (.ok k, guarded) := by
  have hlimit : strict.settings.maxIterations.toNat < 2 := by decide
  obtain ⟨k, hread⟩ := readPrivate_guarded
  obtain ⟨h, -⟩ := read_beyond_limit read_guarded (Text.ofUtf8?_utf8 _) rounds?_toyText hlimit
    (some "secret")
  exact ⟨k, hread, ((h k guarded).mp hread).2 default⟩

/-- Not every file that asks for more iterations than the limit allows is refused. -/
theorem read_beyond_limit_accepted :
    ¬ ∀ (c : Custodian) (expected : KeyType) (path : Path) (given : Option String) (w : World)
      (contents : Bytes) (text : String) (n : Nat), w.tree.read w.here path = .ok contents →
        Text.ofUtf8? contents = some text → rounds? expected text = some n →
          c.settings.maxIterations.toNat < n →
            ∃ e, ((c.readPrivate path expected given).runIn w).1 = .error e := by
  intro hall
  have hlimit : strict.settings.maxIterations.toNat < 2 := by decide
  obtain ⟨k, hread⟩ := readPrivate_guarded
  obtain ⟨e, he⟩ := hall _ _ _ (some "secret") _ _ _ _ read_guarded (Text.ofUtf8?_utf8 _)
    rounds?_toyText hlimit
  rw [hread] at he
  cases he

end Custodian

end KeyCustody
