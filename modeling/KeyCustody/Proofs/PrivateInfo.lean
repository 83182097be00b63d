import KeyCustody.KeyInfo.Plain
import KeyCustody.Proofs.Der
import Mathlib.Data.List.Infix
/-! # Private key information there and back

Key information is read back from its encoding. The information in a text may be spread over more members
than are kept, and writing it anew leaves those out: the encoding of what was read is no longer than what it
was read from, and it is read as the same. -/

namespace KeyCustody

open Der

/-! ## Algorithms -/

namespace Der

variable {e : Element} {a : Algorithm} {name : Oid}

theorem oid?_eq_some (h : e.oid? = some name) : e = oid name := by
  obtain ⟨b, hb, h⟩ := Option.bind_eq_some_iff.mp h
  obtain ⟨ns, -, h⟩ := Option.bind_eq_some_iff.mp h
  cases h
  exact Element.valueOf?_eq_some hb

theorem algorithm?_eq_some (h : e.algorithm? = some a) : e = a.element := by
  obtain ⟨members, hmembers, hnamed⟩ := Option.bind_eq_some_iff.mp h
  obtain ⟨rfl, -⟩ := Element.members?_eq_some hmembers
  split at hnamed
  · obtain ⟨name, hname, ha⟩ := Option.bind_eq_some_iff.mp hnamed
    cases ha
    rw [oid?_eq_some hname]
    rfl
  · obtain ⟨name, hname, ha⟩ := Option.bind_eq_some_iff.mp hnamed
    cases ha
    rw [oid?_eq_some hname]
    rfl
  · cases hnamed

theorem algorithm?_element {parameters : Element} (hname : (oid name).oid? = some name)
    (hknown : Tag.isKnown parameters.tag = true)
    (hlength : (Algorithm.mk name (some parameters)).element.encode.length ≤ maxLength) :
    (Algorithm.mk name (some parameters)).element.algorithm? = some ⟨name, some parameters⟩ := by
  have hmembers : (Algorithm.mk name (some parameters)).element.members? =
      some [oid name, parameters] := by
    refine Element.members?_sequence ?_ hlength
    simp only [Option.toList_some, List.forall_mem_cons]
    exact ⟨rfl, hknown, by simp⟩
  simp only [Element.algorithm?, hmembers, Option.bind_eq_bind, Option.bind_some, hname,
    Option.pure_def]

theorem length_algorithm {parameters : Element} (h : name.length + parameters.encode.length < 0x7E) :
    (Algorithm.mk name (some parameters)).element.encode.length =
      name.length + parameters.encode.length + 4 := by
  have hname : (oid name).encode.length = name.length + 2 :=
    (oid name).length_encode_of_short (by simp only [oid]; omega)
  have hmembers : ([oid name, parameters].flatMap Element.encode).length =
      name.length + parameters.encode.length + 2 := by
    simp only [List.flatMap_cons, List.flatMap_nil, List.append_nil, List.length_append]
    omega
  have hsequence := length_sequence_of_short [oid name, parameters] (by omega)
  simp only [Algorithm.element, Option.toList_some]
  omega

end Der

/-! ## Key information -/

namespace PrivateInfo

variable {i : PrivateInfo} {b : Bytes} {publicKey : Option Bytes} {members : List Element}

/-- The last members of the encoding of key information. -/
def publicKeyMembers (publicKey : Option Bytes) : List Element :=
  (publicKey.map fun b => Element.mk publicKeyTag (0 :: b)).toList

theorem publicKeyOf?_publicKeyMembers (publicKey : Option Bytes) :
    publicKeyOf? (publicKeyMembers publicKey) = some publicKey := by
  cases publicKey with
  | none => rfl
  | some b =>
    have hbefore : beforePublicKey ⟨publicKeyTag, 0 :: b⟩ = false := by
      change (Tag.isContext publicKeyTag && Tag.number publicKeyTag == 0) = false
      decide
    have htag : Tag.isContext publicKeyTag = true ∧ Tag.number publicKeyTag = 1 := by decide
    simp only [publicKeyMembers, Option.map_some, Option.toList_some, publicKeyOf?,
      List.dropWhile_cons, hbefore, Bool.false_eq_true, if_false, htag, and_self, if_true,
      List.all_nil]
    rfl

theorem known_publicKeyMembers {e : Element} (h : e ∈ publicKeyMembers publicKey) :
    Tag.isKnown e.tag = true := by
  cases publicKey with
  | none => cases h
  | some b =>
    rw [List.mem_singleton.mp h]
    change Tag.isKnown publicKeyTag = true
    decide

theorem publicKeyMembers_sublist (h : publicKeyOf? members = some publicKey) :
    (publicKeyMembers publicKey).Sublist members := by
  have hkept := List.dropWhile_sublist (l := members) beforePublicKey
  unfold publicKeyOf? at h
  split at h
  next =>
    cases h
    exact List.nil_sublist _
  next e rest hdrop =>
    split_ifs at h with hcontext hkey hothers
    · obtain ⟨b, hb, rfl⟩ := Option.map_eq_some_iff.mp h
      have he : e = ⟨publicKeyTag, 0 :: b⟩ := by
        rw [← hkey.1, ← wholeBytes?_eq_some hb]
      rw [hdrop, he] at hkept
      exact (List.singleton_sublist.mpr List.mem_cons_self).trans hkept
    · cases h
      exact List.nil_sublist _

/-- Key information is read back, for whatever algorithm it is. -/
theorem decode?_encode (halgorithm : i.algorithm.element.algorithm? = some i.algorithm)
    (hlength : i.encode.length ≤ maxLength) : decode? i.encode = some i := by
  let version : Nat := if i.publicKey.isSome then 1 else 0
  have hmembers : members? i.encode =
      some (natural version :: i.algorithm.element :: octetString i.key ::
        publicKeyMembers i.publicKey) := by
    refine members?_sequence ?_ hlength
    intro e he
    rcases List.mem_append.mp he with he | he
    · simp only [List.mem_cons, List.not_mem_nil, or_false] at he
      rcases he with rfl | rfl | rfl <;> rfl
    · exact known_publicKeyMembers he
  have hversion : version < 2 := by
    simp only [version]
    split_ifs <;> decide
  have hsome : i.publicKey.isSome = (version == 1) := by
    simp only [version]
    cases i.publicKey <;> rfl
  simp only [decode?, hmembers, Option.bind_eq_bind, Option.bind_some, naturalBelow?_natural hversion,
    halgorithm, publicKeyOf?_publicKeyMembers, Element.valueOf?, octetString, if_true, if_pos hsome,
    Option.pure_def]

/-- Written anew, key information is no longer than what it was read from, and its algorithm is well
formed. -/
theorem encode_of_decode? (h : decode? b = some i) :
    i.algorithm.element.algorithm? = some i.algorithm ∧ i.encode.length ≤ b.length ∧
      b.length ≤ maxLength := by
  obtain ⟨members, hmembers, hread⟩ := Option.bind_eq_some_iff.mp h
  obtain ⟨rfl, hlength, -⟩ := members?_eq_some_iff.mp hmembers
  split at hread
  next version algorithm key rest =>
    obtain ⟨n, hversion, hread⟩ := Option.bind_eq_some_iff.mp hread
    obtain ⟨a, halgorithm, hread⟩ := Option.bind_eq_some_iff.mp hread
    obtain ⟨k, hkey, hread⟩ := Option.bind_eq_some_iff.mp hread
    obtain ⟨publicKey, hpublic, hread⟩ := Option.bind_eq_some_iff.mp hread
    split_ifs at hread with hsome
    cases hread
    -- the members that are kept have one encoding each, and of the others some are left out
    obtain ⟨rfl, hn⟩ := naturalBelow?_eq_some hversion
    obtain rfl := algorithm?_eq_some halgorithm
    obtain rfl := Element.valueOf?_eq_some hkey
    refine ⟨halgorithm, ?_, hlength⟩
    have hnumber : (if publicKey.isSome then 1 else 0) = n := by
      rw [hsome]
      obtain rfl | rfl : n = 0 ∨ n = 1 := by omega
      · rfl
      · rfl
    rw [encode, hnumber]
    exact length_sequence_mono ((publicKeyMembers_sublist hpublic).append_left
      [natural n, a.element, octetString k])
  next => cases hread

/-- What was read as key information is read as the same when it is written anew. -/
theorem decode?_encode_of_decode? (h : decode? b = some i) : decode? i.encode = some i := by
  obtain ⟨halgorithm, hle, hlength⟩ := encode_of_decode? h
  exact decode?_encode halgorithm (Nat.le_trans hle hlength)

end PrivateInfo

end KeyCustody
