import KeyCustody.Proofs.ImportSoundness
import KeyCustody.Proofs.PasswordState
import KeyCustody.Proofs.Reading
import KeyCustody.Proofs.RoundTrip
import Mathlib.Data.List.Induction
/-! # The identifiers that a key is known by

A key is known by its identifier and by one for each attached hash algorithm. They are collected in the order
in which they are met, each of them once, so that neither the order of the algorithms nor their repetition
changes which identifiers there are, or the first of them. -/

namespace KeyCustody

namespace KeyPair

variable {k : KeyPair} {ids more : List String} {id x : String}

/-- The identifiers of a key as they are met: its own one, and one for each attached algorithm. -/
def identifiers (k : KeyPair) : List String := k.keyid :: (k.hashAlgorithms.getD []).map k.keyidWith

theorem keyids_eq_foldl (k : KeyPair) : k.keyids = k.identifiers.foldl addKeyid [] := rfl

theorem mem_addKeyid : id ∈ addKeyid ids x ↔ id ∈ ids ∨ id = x := by
  rw [addKeyid]
  split_ifs with hx
  · rw [List.contains_iff_mem] at hx
    exact ⟨.inl, fun h => h.elim (fun h => h) fun h => h ▸ hx⟩
  · rw [List.mem_append, List.mem_singleton]

theorem mem_foldl_addKeyid : id ∈ more.foldl addKeyid ids ↔ id ∈ ids ∨ id ∈ more := by
  induction more generalizing ids with
  | nil => simp
  | cons x more ih => rw [List.foldl_cons, ih, mem_addKeyid, List.mem_cons, or_assoc]

theorem prefix_foldl_addKeyid (more ids : List String) : ids <+: more.foldl addKeyid ids := by
  induction more generalizing ids with
  | nil => exact List.prefix_refl ids
  | cons x more ih =>
    refine List.IsPrefix.trans ?_ (ih (addKeyid ids x))
    rw [addKeyid]
    split_ifs
    · exact List.prefix_refl ids
    · exact List.prefix_append ids [x]

/-- What has been collected stands in the order in which it was first met. -/
theorem pairwise_foldl_addKeyid (more : List String) :
    (more.foldl addKeyid []).Pairwise fun x y => more.idxOf x < more.idxOf y := by
  -- from the right, as it is collected: the last one met is passed over or put at the end
  induction more using List.reverseRecOn with
  | nil => exact .nil
  | append_singleton more last ih =>
    have hmem : ∀ {x}, x ∈ more.foldl addKeyid [] → x ∈ more := fun hx => by
      simpa using mem_foldl_addKeyid.mp hx
    have hkept : (more.foldl addKeyid []).Pairwise fun x y =>
        (more ++ [last]).idxOf x < (more ++ [last]).idxOf y := by
      refine ih.imp_of_mem fun hx hy h => ?_
      rwa [List.idxOf_append_of_mem (hmem hx), List.idxOf_append_of_mem (hmem hy)]
    rw [List.foldl_append, List.foldl_cons, List.foldl_nil, addKeyid]
    split_ifs with hlast
    · exact hkept
    · have hnew : last ∉ more := fun h =>
        hlast (List.contains_iff_mem.mpr (mem_foldl_addKeyid.mpr (.inr h)))
      refine List.pairwise_append.mpr ⟨hkept, List.pairwise_singleton _ _, fun x hx y hy => ?_⟩
      obtain rfl := List.mem_singleton.mp hy
      rw [List.idxOf_append_of_mem (hmem hx), List.idxOf_append_of_notMem hnew]
      exact Nat.lt_add_right _ (List.idxOf_lt_length_of_mem (hmem hx))

theorem mem_keyids :
    id ∈ k.keyids ↔ id = k.keyid ∨ ∃ a ∈ k.hashAlgorithms.getD [], id = k.keyidWith a := by
  rw [keyids_eq_foldl, mem_foldl_addKeyid, identifiers]
  simp [eq_comm]

theorem head?_keyids (k : KeyPair) : k.keyids.head? = some k.keyid := by
  obtain ⟨rest, hrest⟩ := prefix_foldl_addKeyid ((k.hashAlgorithms.getD []).map k.keyidWith) [k.keyid]
  rw [keyids, ← hrest]
  rfl

theorem pairwise_keyids (k : KeyPair) :
    k.keyids.Pairwise fun x y => k.identifiers.idxOf x < k.identifiers.idxOf y :=
  pairwise_foldl_addKeyid k.identifiers

theorem nodup_keyids (k : KeyPair) : k.keyids.Nodup :=
  k.pairwise_keyids.imp fun h heq => Nat.ne_of_lt h (congrArg k.identifiers.idxOf heq)

/-- A key to which hash algorithms are attached instead of those that it has. -/
def attaching (k : KeyPair) (algorithms : List HashAlgorithm) : KeyPair :=
  { k with hashAlgorithms := some algorithms }

/-- A key has the same identifiers under algorithms that are listed in another order or more often. -/
theorem mem_keyids_attaching {algorithms : List HashAlgorithm}
    (h : ∀ a, a ∈ algorithms ↔ a ∈ k.hashAlgorithms.getD []) (id : String) :
    id ∈ (k.attaching algorithms).keyids ↔ id ∈ k.keyids := by
  rw [mem_keyids, mem_keyids]
  exact or_congr Iff.rfl (exists_congr fun a => and_congr (h a) Iff.rfl)

end KeyPair

/-! ## Keys that are read -/

namespace Custodian

variable {c : Custodian} {k : KeyPair} {expected : KeyType} {document : Bytes} {text password : String}
  {scheme : Scheme} {path : Path} {given : Option String} {w w' : World} {algorithms : List HashAlgorithm}

/-- A custodian who attaches other hash algorithms, under the same settings otherwise. -/
def attaching (c : Custodian) (algorithms : List HashAlgorithm) : Custodian :=
  ⟨{ c.settings with hashAlgorithms := algorithms }, c.accepted⟩

theorem keyPairOf_attaching (h : c.keyPairOf document expected = .ok k) :
    (c.attaching algorithms).keyPairOf document expected = .ok (k.attaching algorithms) := by
  obtain ⟨stored, hstored, hkind, k', hmake, hprivate, hvalid, rfl⟩ := keyPairOf_eq_ok.mp h
  exact keyPairOf_eq_ok.mpr ⟨stored, hstored, hkind, k', hmake, hprivate, hvalid, rfl⟩

theorem privateKeyOf_attaching (hkind : expected ≠ .rsa)
    (h : c.privateKeyOf text expected password scheme = .ok k) :
    (c.attaching algorithms).privateKeyOf text expected password scheme =
      .ok (k.attaching algorithms) := by
  by_cases hpassword : password = ""
  · subst hpassword
    rw [privateKeyOf_plain hkind] at h ⊢
    split_ifs at h ⊢
    exact keyPairOf_attaching h
  · rw [privateKeyOf_locked hkind hpassword] at h ⊢
    split_ifs at h ⊢
    obtain ⟨document, hdocument, h⟩ := Outcome.bind_eq_ok.mp h
    exact Outcome.bind_eq_ok.mpr ⟨document, hdocument, keyPairOf_attaching h⟩

/-- The key that is read from a file differs in the attached algorithms only, if the settings do. -/
theorem readPrivate_attaching (hkind : expected ≠ .rsa)
    (h : (c.readPrivate path expected given).runIn w = (.ok k, w')) :
    ((c.attaching algorithms).readPrivate path expected given).runIn w =
      (.ok (k.attaching algorithms), w') := by
  obtain ⟨u, w₁, hpath, -⟩ := Action.runIn_bind_ok h
  replace hpath : path.check = .ok () := (Prod.mk.inj hpath).1
  rw [readPrivate_run _ hpath] at h ⊢
  obtain ⟨password, w₂, hpassword, h⟩ := Action.runIn_bind_ok h
  obtain ⟨text, w₃, htext, h⟩ := Action.runIn_bind_ok h
  obtain ⟨hkey, rfl⟩ := Prod.mk.inj h
  rw [Action.runIn_bind, hpassword, Action.andThen_ok, Action.runIn_bind, htext, Action.andThen_ok,
    Action.runIn_ofOutcome, privateKeyOf_attaching hkind hkey]

/-- The identifiers of a key are its own one and those by the attached algorithms, each of them once and as
they are first met. Those of a key that is read are the same ones, with the same one before the others, for
all settings that list the same algorithms. -/
theorem keyids_once :
    (∀ k : KeyPair, k.keyids.head? = some k.keyid ∧ k.keyids.Nodup ∧
      (∀ id, id ∈ k.keyids ↔ id = k.keyid ∨ ∃ a ∈ k.hashAlgorithms.getD [], id = k.keyidWith a) ∧
      k.keyids.Pairwise fun x y => k.identifiers.idxOf x < k.identifiers.idxOf y) ∧
    ∀ (c : Custodian) (path : Path) (expected : KeyType) (given : Option String) (w w' : World)
      (k : KeyPair) (algorithms : List HashAlgorithm), expected ≠ .rsa →
      (c.readPrivate path expected given).runIn w = (.ok k, w') →
      (∀ a, a ∈ algorithms ↔ a ∈ c.settings.hashAlgorithms) →
        ((c.attaching algorithms).readPrivate path expected given).runIn w =
            (.ok (k.attaching algorithms), w') ∧
          (k.attaching algorithms).keyids.head? = k.keyids.head? ∧
          ∀ id, id ∈ (k.attaching algorithms).keyids ↔ id ∈ k.keyids := by
  refine ⟨fun k => ⟨k.head?_keyids, k.nodup_keyids, fun id => k.mem_keyids, k.pairwise_keyids⟩, ?_⟩
  intro c path expected given w w' k algorithms hkind hread hsame
  have hattached : k.hashAlgorithms = some c.settings.hashAlgorithms := by
    rw [(loadPrivate_sound hread).hashAlgorithms, if_neg hkind]
  refine ⟨readPrivate_attaching hkind hread, ?_, KeyPair.mem_keyids_attaching ?_⟩
  · rw [KeyPair.head?_keyids, KeyPair.head?_keyids]
    rfl
  · rwa [hattached, Option.getD_some]

theorem keyids_once_reordered :
    ∃ k : KeyPair, k.keyids.head? = some k.keyid ∧
      ((default.attaching [.sha512, .sha256, .sha512]).readPrivate ⟨"k"⟩ .ed25519 (some "")).runIn exposed =
        (.ok (k.attaching [.sha512, .sha256, .sha512]), exposed) ∧
      ∀ id, id ∈ (k.attaching [.sha512, .sha256, .sha512]).keyids ↔ id ∈ k.keyids := by
  have htext : (Action.readText ⟨"k"⟩).runIn exposed = (.ok KeyPair.specimen.document, exposed) :=
    readText_utf8 rfl
  have hread : (default.readPrivate ⟨"k"⟩ .ed25519 (some "")).runIn exposed =
      (.ok (default.reread .specimen), exposed) := by
    rw [default.readPrivate_given (by decide) htext, privateKeyOf_plain (by decide),
      not_looksLike_specimen _ (KeyPair.looksLike_document _)]
    exact congrArg (·, exposed) (keyPairOf_document KeyPair.validate_specimen (by decide))
  obtain ⟨hall, hreordered⟩ := keyids_once
  obtain ⟨hrun, -, hids⟩ := hreordered default ⟨"k"⟩ .ed25519 (some "") exposed exposed _
    [.sha512, .sha256, .sha512] (by decide) hread (by intro a; cases a <;> decide)
  exact ⟨_, (hall _).1, hrun, hids⟩

end Custodian

end KeyCustody
