import KeyCustody.Proofs.DefaultPath
import KeyCustody.Proofs.DocumentKind
import KeyCustody.Proofs.KeySpelling
import KeyCustody.Proofs.RoundTrip
/-! # Keys next to each other

Keys that are written into one directory, one after the other, under different names. Each of them has two
files there, and no two keys have the same name, but the file of a public half can have the name of another
key: `k` and `k.pub` share a file. Of two halves with one file, the one that was written later is there. -/

namespace KeyCustody

/-! ## Names in a directory -/

/-- A valid key that is to be encrypted in an envelope, with the name that its file is to have and the
password. -/
structure Deposit where
  key : KeyPair
  name : String
  password : String
  isName : Path.IsName name
  kind : key.keytype ≠ .rsa
  valid : key.validate = .ok ()
  nonempty : password ≠ ""

namespace Deposit

def path (d : Deposit) (directory : Path) : Path := directory.join ⟨d.name⟩

/-- Neither half of a deposit gets a name. -/
def Spares (d : Deposit) (name : String) : Prop := d.name ≠ name ∧ d.name ++ ".pub" ≠ name

theorem publicKey_path (d : Deposit) (directory : Path) :
    (d.path directory).publicKey = directory.join ⟨d.name ++ ".pub"⟩ :=
  directory.publicKey_join ⟨d.name⟩

end Deposit

theorem Path.lastSegment_join (directory : Path) {name : String} (hname : IsName name) :
    (directory.join ⟨name⟩).lastSegment = name := by
  obtain ⟨xs, hsegments⟩ :
      ∃ xs, segments (directory.join ⟨name⟩).text.toList = xs ++ [name.toList] := by
    have hown := segments_of_notMem hname.noSlash
    unfold join
    rw [isAbsolute_name hname.noSlash, if_neg Bool.false_ne_true]
    split_ifs with hstart
    · rcases hstart with hempty | hslash
      · exact ⟨[], by simp [hempty, hown]⟩
      · obtain ⟨cs, hcs⟩ := List.getLast?_eq_some_iff.mp hslash
        exact ⟨segments cs, by simp [hcs, segments_append_slash, hown]⟩
    · exact ⟨segments directory.text.toList, by simp [segments_append_slash, hown]⟩
  simp [lastSegment, hsegments, hname.nonempty]

theorem Deposit.lastSegment_path (d : Deposit) (directory : Path) :
    (d.path directory).lastSegment = d.name := directory.lastSegment_join d.isName

/-! ## What a file is read as -/

/-- An envelope is no metadata, which has brackets. -/
theorem Metadata.parse_encode (e : Envelope) :
    ∃ fault, Metadata.parse (Text.utf8 e.encode) = .error (.metadata fault) := by
  cases h : Json.whole layout.read (Text.utf8 e.encode) with
  | error fault => exact ⟨fault, by rw [parse, h]; rfl⟩
  | ok m =>
    have hnone : ∀ c : Char, c.isAlphanum = false → c ≠ '@' → c ∉ e.encode.toList := by
      intro c hc hne hmem
      rw [Envelope.encode, String.toList_ofList] at hmem
      rcases e.isAlphanum_or_mark hmem with h | h
      · rw [hc] at h
        cases h
      · exact hne h
    rcases Json.Layout.bracket_of_whole h with hmem | hmem
    · exact absurd hmem (hnone _ (by decide) (by decide))
    · exact absurd hmem (hnone _ (by decide) (by decide))

namespace Custodian

open FileTree

variable {c : Custodian} {k : KeyPair} {password payload : String} {expected : KeyType}
  {w w' w₁ : World} {directory p : Path} {contents : Bytes} {g : Target} {d : Deposit}
  {ds before after : List Deposit}

theorem publicKeyOf_encode (e : Envelope) (hkind : expected ≠ .rsa) (scheme : Scheme) :
    ∃ fault, publicKeyOf e.encode expected scheme = .error (.metadata fault) := by
  obtain ⟨fault, hparse⟩ := Metadata.parse_encode e
  refine ⟨fault, ?_⟩
  cases expected with
  | rsa => exact absurd rfl hkind
  | ed25519 =>
    simp only [publicKeyOf, namedKeyType?_encode, hparse]
    rfl
  | ecdsa =>
    simp only [publicKeyOf, namedKeyType?_encode, hparse]
    rfl

/-- The payload under a password is an envelope, and what is read from it is the key. -/
theorem privateKeyOf_payload (hkind : k.keytype ≠ .rsa) (hvalid : k.validate = .ok ())
    (hprivate : k.hasPrivate = true) (hpassword : password ≠ "")
    (hpayload : (c.privatePayload k password).runIn w = (.ok payload, w₁)) (scheme : Scheme) :
    c.privateKeyOf payload k.keytype password scheme = .ok (c.reread k) ∧
      ∃ e : Envelope, payload = e.encode := by
  obtain ⟨e, hformed, hiterations, hunlock, hencode⟩ :=
    privatePayload_envelope (c := c) hkind hpassword w
  rw [hpayload] at hencode
  cases hencode
  refine ⟨?_, e, rfl⟩
  rw [privateKeyOf_locked hkind hpassword, namedKeyType?_encode, Option.isSome_none,
    if_neg Bool.false_ne_true, unlockText_encode hformed hiterations hunlock, Outcome.ok_bind,
    keyPairOf_document hvalid hprivate]

/-! ## Writes into a directory -/

/-- Writes keys into a directory, one after the other. -/
def writeEach (c : Custodian) (directory : Path) : List Deposit → Action Unit
  | [] => return ()
  | d :: ds => do
    let _ ← c.write d.key (some (d.path directory)) (some d.password)
    c.writeEach directory ds

theorem writeEach_append (h : (c.writeEach directory (before ++ after)).runIn w = (.ok (), w')) :
    ∃ w₁, (c.writeEach directory before).runIn w = (.ok (), w₁) ∧
      (c.writeEach directory after).runIn w₁ = (.ok (), w') := by
  induction before generalizing w with
  | nil => exact ⟨w, rfl, h⟩
  | cons d before ih =>
    obtain ⟨written, w₂, hwrite, hrest⟩ := Action.runIn_bind_ok h
    obtain ⟨w₁, hbefore, hafter⟩ := ih hrest
    refine ⟨w₁, ?_, hafter⟩
    rw [writeEach, Action.runIn_bind, hwrite, Action.andThen_ok, hbefore]

/-- Writes keep what is under a name that none of them gives to a file. -/
theorem writeEach_keeps (h : (c.writeEach directory ds).runIn w = (.ok (), w')) (hheld : w.tree.Holds w.here p contents g)
    (hspares : ∀ d ∈ ds, d.Spares p.lastSegment) : w'.tree.Holds w'.here p contents g := by
  induction ds generalizing w with
  | nil =>
    cases h
    exact hheld
  | cons d ds ih =>
    obtain ⟨written, w₁, hwrite, hrest⟩ := Action.runIn_bind_ok h
    obtain ⟨-, -, payload, w₂, g', -, hstored⟩ := stored_of_write hwrite
    obtain ⟨hprivate, hpublic⟩ := hspares d List.mem_cons_self
    rw [← d.lastSegment_path directory] at hprivate hpublic
    exact ih hrest (hstored.kept hheld hprivate hpublic) fun d hd =>
      hspares d (List.mem_cons_of_mem _ hd)

/-- Both halves of a key are in their files after all writes, unless a later write gives their names. -/
theorem writeEach_holds
    (h : (c.writeEach directory (before ++ d :: after)).runIn w = (.ok (), w')) :
    (d.path directory).check = .ok () ∧ d.key.hasPrivate = true ∧
      ∃ payload g w₁ w₂, (c.privatePayload d.key d.password).runIn w₁ = (.ok payload, w₂) ∧
        ((∀ e ∈ after, e.Spares d.name) →
          w'.tree.Holds w'.here (d.path directory) (Text.utf8 payload) g) ∧
        ((∀ e ∈ after, e.Spares (d.name ++ ".pub")) →
          w'.tree.Holds w'.here (d.path directory).publicKey (Text.utf8 (publicPayload d.key))
            g.publicKey) := by
  obtain ⟨w₁, -, h⟩ := writeEach_append h
  obtain ⟨written, w₂, hwrite, hafter⟩ := Action.runIn_bind_ok h
  obtain ⟨hprivate, hpath, payload, w₃, g, hpayload, hstored⟩ := stored_of_write hwrite
  have hlast := d.lastSegment_path directory
  have hlastPublic : (d.path directory).publicKey.lastSegment = d.name ++ ".pub" := by
    rw [← target_last hstored.publicHalf.target, ← hlast, ← target_last hstored.privateHalf.target]
    rfl
  refine ⟨hpath, hprivate, payload, g, w₁, w₃, hpayload, fun hspares => ?_, fun hspares => ?_⟩
  · exact writeEach_keeps hafter hstored.privateHalf (hlast ▸ hspares)
  · exact writeEach_keeps hafter hstored.publicHalf (hlastPublic ▸ hspares)

theorem name_ne (hnames : ((before ++ d :: after).map Deposit.name).Nodup) :
    ∀ e ∈ after, e.name ≠ d.name := by
  intro e he heq
  rw [List.map_append, List.map_cons, List.nodup_middle, List.nodup_cons, ← List.map_append] at hnames
  exact hnames.1 (heq ▸ List.mem_map_of_mem (List.mem_append_right before he))

theorem exists_rest {e : Deposit} (hnames : ((before ++ d :: after).map Deposit.name).Nodup)
    (he : e ∈ after) :
    ∃ before' rest, before ++ d :: after = before' ++ e :: rest ∧
      ∀ e' ∈ rest, e'.name ≠ d.name ∧ e'.name ≠ e.name := by
  obtain ⟨between, rest, rfl⟩ := List.append_of_mem he
  have hall : before ++ d :: (between ++ e :: rest) = (before ++ d :: between) ++ e :: rest := by
    simp only [List.append_assoc, List.cons_append]
  refine ⟨_, rest, hall, fun e' he' => ⟨?_, ?_⟩⟩
  · exact name_ne hnames e' (List.mem_append_right _ (List.mem_cons_of_mem _ he'))
  · exact name_ne (hall ▸ hnames) e' he'

section Reads

variable (hnames : ((before ++ d :: after).map Deposit.name).Nodup)
  (h : (c.writeEach directory (before ++ d :: after)).runIn w = (.ok (), w'))
include hnames h

theorem readPrivate_kept (hfree : ∀ e ∈ after, e.name ++ ".pub" ≠ d.name) :
    (c.readPrivate (d.path directory) d.key.keytype (some d.password)).runIn w' =
      (.ok (c.reread d.key), w') := by
  obtain ⟨hpath, hprivate, payload, g, w₁, w₂, hpayload, hheld, -⟩ := writeEach_holds h
  have hread := (hheld fun e he => ⟨name_ne hnames e he, hfree e he⟩).read
  rw [c.readPrivate_given hpath (readText_utf8 hread),
    (privateKeyOf_payload d.kind d.valid hprivate d.nonempty hpayload _).1]

theorem readPublic_kept (hfree : ∀ e ∈ after, d.name ++ ".pub" ≠ e.name) :
    (readPublic (d.path directory).publicKey d.key.keytype).runIn w' =
      (.ok (.assembled d.key.keytype d.key.scheme d.key.keyval.publicHalf ""), w') := by
  obtain ⟨hpath, hprivate, payload, g, w₁, w₂, hpayload, -, hheld⟩ := writeEach_holds h
  have hread := (hheld fun e he => ⟨(hfree e he).symm, fun heq =>
    name_ne hnames e he (String.append_left_inj ".pub" |>.mp heq)⟩).read
  rw [publicPayload_document d.kind] at hread
  exact readPublic_document d.kind d.valid (d.path directory).check_publicKey hread

/-- The public half of a later key has the name of the private half. -/
theorem readPrivate_taken (htaken : ∃ e ∈ after, e.name ++ ".pub" = d.name) :
    (c.readPrivate (d.path directory) d.key.keytype (some d.password)).runIn w' =
      (.error (.needlessPassword d.key.keytype), w') := by
  obtain ⟨hpath, -⟩ := writeEach_holds h
  obtain ⟨e, he, hsame⟩ := htaken
  obtain ⟨before', rest, hall, hrest⟩ := exists_rest hnames he
  rw [hall] at h
  obtain ⟨-, -, payload, g, w₁, w₂, -, -, hheld⟩ := writeEach_holds h
  have hread := (hheld fun e' he' => ⟨hsame ▸ (hrest e' he').1, fun heq =>
    (hrest e' he').2 (String.append_left_inj ".pub" |>.mp heq)⟩).read
  have hplace : (e.path directory).publicKey = d.path directory := by
    rw [e.publicKey_path, hsame, Deposit.path]
  rw [hplace, publicPayload_document e.kind] at hread
  rw [c.readPrivate_given hpath (readText_utf8 hread), privateKeyOf_locked d.kind d.nonempty,
    Metadata.namedKeyType?_document]
  rfl

theorem readPublic_taken (htaken : ∃ e ∈ after, d.name ++ ".pub" = e.name) :
    ∃ fault, (readPublic (d.path directory).publicKey d.key.keytype).runIn w' =
      (.error (.metadata fault), w') := by
  obtain ⟨e, he, hsame⟩ := htaken
  obtain ⟨before', rest, hall, hrest⟩ := exists_rest hnames he
  rw [hall] at h
  obtain ⟨-, hprivate, payload, g, w₁, w₂, hpayload, hheld, -⟩ := writeEach_holds h
  have hread := (hheld fun e' he' => ⟨(hrest e' he').2, fun heq =>
    (hrest e' he').1 (String.append_left_inj ".pub" |>.mp (heq.trans hsame.symm))⟩).read
  have hplace : (d.path directory).publicKey = e.path directory := by
    rw [d.publicKey_path, hsame, Deposit.path]
  obtain ⟨-, envelope, rfl⟩ := privateKeyOf_payload e.kind e.valid hprivate e.nonempty hpayload
    e.key.keytype.defaultScheme
  obtain ⟨fault, hfault⟩ := publicKeyOf_encode envelope d.kind d.key.keytype.defaultScheme
  refine ⟨fault, ?_⟩
  rw [readPublic_utf8 (d.path directory).check_publicKey (hplace ▸ hread), hfault]

end Reads

/-- After keys have been written into one directory under different names, each of them is read back, unless
a later key has taken one of its files. -/
theorem read_writeEach (hnames : ((before ++ d :: after).map Deposit.name).Nodup)
    (h : (c.writeEach directory (before ++ d :: after)).runIn w = (.ok (), w')) :
    ((∀ e ∈ after, e.name ++ ".pub" ≠ d.name) →
        (c.readPrivate (d.path directory) d.key.keytype (some d.password)).runIn w' =
          (.ok (c.reread d.key), w')) ∧
      ((∃ e ∈ after, e.name ++ ".pub" = d.name) →
        (c.readPrivate (d.path directory) d.key.keytype (some d.password)).runIn w' =
          (.error (.needlessPassword d.key.keytype), w')) ∧
      ((∀ e ∈ after, d.name ++ ".pub" ≠ e.name) →
        (readPublic (d.path directory).publicKey d.key.keytype).runIn w' =
          (.ok (.assembled d.key.keytype d.key.scheme d.key.keyval.publicHalf ""), w')) ∧
      ((∃ e ∈ after, d.name ++ ".pub" = e.name) →
        ∃ fault, (readPublic (d.path directory).publicKey d.key.keytype).runIn w' =
          (.error (.metadata fault), w')) :=
  ⟨readPrivate_kept hnames h, readPrivate_taken hnames h,
    readPublic_kept hnames h, readPublic_taken hnames h⟩

def specimenAs (name : String) (hname : Path.IsName name) : Deposit where
  key := .specimen
  name := name
  password := "secret"
  isName := hname
  kind := by decide
  valid := KeyPair.validate_specimen
  nonempty := by decide

def apart : List Deposit :=
  [specimenAs "k" ⟨by decide, by decide, by decide, by decide⟩,
    specimenAs "l" ⟨by decide, by decide, by decide, by decide⟩]

theorem read_writeEach_apart :
    ∃ w', (brisk.writeEach ⟨"keys"⟩ apart).runIn (World.start [] [] fun _ => 0) = (.ok (), w') ∧
      (brisk.readPrivate ⟨"keys/k"⟩ .ed25519 (some "secret")).runIn w' =
        (.ok (brisk.reread .specimen), w') ∧
      (readPublic ⟨"keys/k.pub"⟩ .ed25519).runIn w' =
        (.ok (.assembled .ed25519 .ed25519 KeyPair.specimen.keyval.publicHalf ""), w') := by
  have hrun : ((brisk.writeEach ⟨"keys"⟩ apart).runIn
      (World.start [] [] fun _ => 0)).1.toOption.isSome = true := by
    decide +kernel
  have hnames : (([] ++ apart).map Deposit.name).Nodup := by decide
  obtain ⟨u, w', hwrites⟩ := Action.runIn_eq_ok hrun
  obtain ⟨hprivate, -, hpublic, -⟩ := read_writeEach hnames hwrites
  exact ⟨w', hwrites, hprivate (by decide), hpublic (by decide)⟩

/-- Two keys of which the second has a public half with the name of the first one. -/
def overlapping : List Deposit :=
  [specimenAs "k.pub" ⟨by decide, by decide, by decide, by decide⟩,
    specimenAs "k" ⟨by decide, by decide, by decide, by decide⟩]

/-- Keys with different names are not always all read back: the public half of the second one is where
the private half of the first one was. -/
theorem read_writeEach_overlapping :
    ¬ ∀ (c : Custodian) (directory : Path) (ds : List Deposit) (w w' : World),
      (ds.map Deposit.name).Nodup → (c.writeEach directory ds).runIn w = (.ok (), w') → ∀ d ∈ ds,
        (∃ k, (c.readPrivate (d.path directory) d.key.keytype (some d.password)).runIn w' =
          (.ok k, w') ∧ k.keyval = d.key.keyval) ∧
        ∃ k, (readPublic (d.path directory).publicKey d.key.keytype).runIn w' = (.ok k, w') ∧
          k.keyval.publicHalf = d.key.keyval.publicHalf := by
  intro hall
  have hrun : ((brisk.writeEach ⟨""⟩ overlapping).runIn
      (World.start [] [] fun _ => 0)).1.toOption.isSome = true := by
    decide +kernel
  have hnames : (([] ++ overlapping).map Deposit.name).Nodup := by decide
  obtain ⟨u, w', hwrites⟩ := Action.runIn_eq_ok hrun
  have htaken := readPrivate_taken hnames hwrites ⟨_, List.mem_singleton_self _, rfl⟩
  obtain ⟨⟨k, hread, -⟩, -⟩ := hall _ _ _ _ _ hnames hwrites _ List.mem_cons_self
  rw [hread] at htaken
  cases htaken

end Custodian

end KeyCustody
