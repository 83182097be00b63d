import KeyCustody.Proofs.ImportSoundness
/-! # Public keys among other text

An RSA public key is read from the first block of its kind in a text. Before the block there may be any lines
without the mark that begins such a block, after it there may be anything, and the lines of the block itself
may have other line ends. The mark has no line feed, so it cannot begin at the end of these lines and run on
into the block, and the mark at the end of the block has hyphens, which no line between the marks has. -/

namespace KeyCustody.Rsa

variable {mark cs : List Char} {document : String} {scheme : Scheme} {k : KeyPair}

/-- A mark without line feeds that is not in a text of whole lines cannot begin in it either. -/
theorem Clear.of_lines (hmark : '\n' ∉ mark) (hlines : cs = [] ∨ ['\n'] <:+ cs) (hfree : ¬ mark <:+: cs) :
    Clear mark cs := by
  intro t ht hne
  have htail : t <:+ cs := (List.mem_tails _ _).mp ht
  constructor
  · exact fun h => hfree (h.isInfix.trans htail.isInfix)
  · intro h
    rcases hlines with rfl | hlast
    · exact hne (List.suffix_nil.mp htail)
    · have hfeed : ['\n'] <:+ t :=
        List.suffix_of_suffix_length_le hlast htail (List.length_pos_of_ne_nil hne)
      exact hmark (h.subset (hfeed.subset List.mem_cons_self))

/-- A text that is read as a key which has it as its public half is the document of a sound key. -/
theorem exists_document (hread : readPublic document scheme = .ok k)
    (hhalf : k.keyval.publicHalf = document) :
    ∃ key : PublicKey, document = key.document ∧ key.isSound maxPublicBits = true := by
  obtain ⟨key, hkey, -, rfl⟩ := readPublic_eq_ok.mp hread
  exact ⟨key, hhalf.symm, PublicKey.isSound_of_parse hkey⟩

/-- A public key in the form in which it is written is read as the same key after any lines that do not begin
another public key and before any text, also if its lines end in carriage returns. -/
theorem readPublic_surrounded (hread : readPublic document scheme = .ok k)
    (hhalf : k.keyval.publicHalf = document) (before after : String)
    (hlines : before.toList = [] ∨ ['\n'] <:+ before.toList) (hfree : ¬ beginPublic <:+: before.toList) :
    readPublic (before ++ document ++ after) scheme = .ok k ∧
      ∀ lineEnd, Pem.IsLineEnd lineEnd →
        readPublic (before ++ String.ofList (Pem.withLineEnds lineEnd document.toList) ++ after) scheme =
          .ok k := by
  obtain ⟨key, rfl, hsound⟩ := exists_document hread hhalf
  have hbefore : Clear beginPublic before.toList := .of_lines (by decide) hlines hfree
  have hparse : ∀ lineEnd, Pem.IsLineEnd lineEnd →
      PublicKey.parse (before ++ String.ofList (Pem.withLineEnds lineEnd key.document.toList) ++ after) =
        .ok key := by
    intro lineEnd he
    rw [key.parse_withLineEnds he hbefore, if_pos hsound]
  have hsame : ∀ text, PublicKey.parse text = .ok key → readPublic text scheme = .ok k := by
    intro text htext
    rw [readPublic, PublicKey.parse_document hsound] at hread
    rw [readPublic, htext]
    exact hread
  exact ⟨hsame _ (PublicKey.parse_among hsound hbefore after), fun e he => hsame _ (hparse e he)⟩

/-- A key after the end of another one and before half of a third, its lines with line feeds and with carriage
returns before them. -/
theorem readPublic_surrounded_toy :
    ∃ k, readPublic Custodian.toyRsa.publicKey.document .rsaPss = .ok k ∧
      readPublic ("ключ\n-----END PUBLIC KEY-----\n" ++ Custodian.toyRsa.publicKey.document ++
        "-----BEGIN PUBLIC KEY-----\nMCAw") .rsaPss = .ok k ∧
      readPublic ("ключ\n-----END PUBLIC KEY-----\n" ++
        String.ofList (Pem.withLineEnds ['\r', '\n'] Custodian.toyRsa.publicKey.document.toList) ++
          "-----BEGIN PUBLIC KEY-----\nMCAw") .rsaPss = .ok k := by
  have hparse : PublicKey.parse Custodian.toyRsa.publicKey.document = .ok Custodian.toyRsa.publicKey :=
    PublicKey.parse_document (by decide)
  have hread : readPublic Custodian.toyRsa.publicKey.document .rsaPss =
      .ok (.assembled .rsa .rsaPss Custodian.toyRsa.publicKey.document "") :=
    readPublic_eq_ok.mpr ⟨_, hparse, rfl, rfl⟩
  obtain ⟨hplain, hlineEnds⟩ := readPublic_surrounded hread rfl "ключ\n-----END PUBLIC KEY-----\n"
    "-----BEGIN PUBLIC KEY-----\nMCAw" (.inr (by decide)) (by decide)
  exact ⟨_, hread, hplain, hlineEnds _ (.inr (.inr rfl))⟩

end KeyCustody.Rsa
