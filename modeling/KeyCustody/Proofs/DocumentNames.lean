import KeyCustody.Proofs.KeyDocument
import KeyCustody.Proofs.KeyPair
/-! # Documents as values of any shape

The text of a value without numbers is read as that value, unless it is nested too deeply. The documents
of keys are texts of such values, so that the kinds that they name are found in them. -/

namespace KeyCustody

namespace Json

open Text

/-! ## Members -/

/-- What follows a number has no part in it: there is nothing, or another byte than a digit, a point and the
marks of an exponent. -/
def Ends (rest : Bytes) : Prop :=
  ∀ b ∈ rest.head?, isDigit b = false ∧ b ≠ 0x2E ∧ b ≠ 0x65 ∧ b ≠ 0x45

/-- The text of a value is read as `x` where a number may end after it. -/
def ReadsBefore {α : Type} (reader : Reader α) (v : Value) (x : α) : Prop :=
  ∀ rest, Ends rest → reader (bytes v.chars ++ rest) = .ok (x, rest)

theorem Reads.before {α : Type} {reader : Reader α} {v : Value} {x : α} (h : Reads reader v x) :
    ReadsBefore reader v x :=
  fun rest _ => h rest

theorem ends_members (ms : List (String × Value)) (rest : Bytes) :
    Ends (bytes (Value.membersChars ms) ++ 0x7D :: rest) := by
  intro b hb
  cases ms with
  | nil =>
    obtain rfl : 0x7D = b := Option.some.inj hb
    decide
  | cons m ms =>
    obtain ⟨key, v⟩ := m
    rw [bytes_membersChars] at hb
    obtain rfl : 0x2C = b := Option.some.inj hb
    decide

theorem members_cons {reader : Reader Value} {key : String} {v : Value} {ms : List (String × Value)}
    {fuel : Nat} {isFirst : Bool} {text more rest : Bytes}
    (hnext : nextMember isFirst text = .ok (true, memberBytes key v ++ more))
    (hv : reader (bytes v.chars ++ more) = .ok (v, more))
    (htail : members reader fuel false more = .ok (ms, rest)) :
    members reader (fuel + 1) isFirst text = .ok ((key, v) :: ms, rest) := by
  simp only [members, hnext, bind, Except.bind, stringBody_memberBytes, Layout.colon_cons, hv, htail]
  rfl

theorem members_reads {reader : Reader Value} {ms : List (String × Value)}
    (h : ∀ m ∈ ms, ReadsBefore reader m.2 m.2) {fuel : Nat} (hfuel : ms.length < fuel) (rest : Bytes) :
    members reader fuel false (bytes (Value.membersChars ms) ++ 0x7D :: rest) =
      .ok (ms, 0x7D :: rest) := by
  induction ms generalizing fuel with
  | nil =>
    obtain ⟨n, rfl⟩ : ∃ n, fuel = n + 1 := ⟨fuel - 1, by omega⟩
    rfl
  | cons m ms ih =>
    obtain ⟨key, v⟩ := m
    rw [List.length_cons] at hfuel
    obtain ⟨n, rfl⟩ : ∃ n, fuel = n + 1 := ⟨fuel - 1, by omega⟩
    rw [bytes_membersChars, List.cons_append, List.append_assoc]
    exact members_cons rfl (h (key, v) List.mem_cons_self _ (ends_members ms rest))
      (ih (fun m hm => h m (List.mem_cons_of_mem _ hm)) (by omega))

/-- The members of an object are read if their values are read as themselves. -/
theorem members_object {reader : Reader Value} {ms : List (String × Value)}
    (h : ∀ m ∈ ms, ReadsBefore reader m.2 m.2) (rest : Bytes) :
    members reader ((bytes (Value.membersChars ms).tail ++ 0x7D :: rest).length + 1) true
      (bytes (Value.membersChars ms).tail ++ 0x7D :: rest) = .ok (ms, 0x7D :: rest) := by
  cases ms with
  | nil => rfl
  | cons m ms =>
    obtain ⟨key, v⟩ := m
    have hlength := Layout.length_membersChars ms
    rw [bytes_tail_membersChars, List.append_assoc]
    refine members_cons rfl (h (key, v) List.mem_cons_self _ (ends_members ms rest))
      (members_reads (fun m hm => h m (List.mem_cons_of_mem _ hm)) ?_ rest)
    simp only [List.length_append, List.length_cons]
    omega

/-! ## Values -/

theorem readsAll_self {reader : Reader Value} {vs : List Value} (hopens : ∀ v ∈ vs, Opens v)
    (h : ∀ v ∈ vs, Reads reader v v) : ReadsAll reader vs vs := by
  induction vs with
  | nil => exact .nil
  | cons v vs ih =>
    exact .cons (hopens v List.mem_cons_self) (h v List.mem_cons_self)
      (ih (fun v hv => hopens v (List.mem_cons_of_mem _ hv)) fun v hv => h v (List.mem_cons_of_mem _ hv))

namespace Value

/-- A value without numbers that has at most `depth` brackets around any part of it. -/
inductive Numberless : (depth : Nat) → Value → Prop where
  | null (depth : Nat) : Numberless depth .null
  | bool (depth : Nat) (b : Bool) : Numberless depth (.bool b)
  | string (depth : Nat) (s : String) : Numberless depth (.string s)
  | list {depth : Nat} {vs : List Value} :
      (∀ v ∈ vs, Numberless depth v) → Numberless (depth + 1) (.list vs)
  | object {depth : Nat} {ms : List (String × Value)} :
      (∀ m ∈ ms, Numberless depth m.2) → Numberless (depth + 1) (.object ms)

variable {depth : Nat} {v : Value} {ms : List (String × Value)}

theorem Numberless.opens (h : Numberless depth v) : Opens v := by
  cases h with
  | null => exact opens_null
  | bool depth b => cases b with
    | true => exact ⟨0x74, [0x72, 0x75, 0x65], rfl, rfl, by decide⟩
    | false => exact ⟨0x66, [0x61, 0x6C, 0x73, 0x65], rfl, rfl, by decide⟩
  | string depth s => exact opens_string s
  | list => exact opens_list _
  | @object depth ms => exact ⟨0x7B, _, bytes_object ms, rfl, by decide⟩

/-- An object is read as itself if the values of its members are. -/
theorem reads_object_self (h : ∀ m ∈ ms, ReadsBefore (read depth) m.2 m.2) :
    Reads (read (depth + 1)) (.object ms) (.object ms) := by
  intro rest
  rw [bytes_object, List.cons_append, List.append_assoc, List.singleton_append]
  generalize htext : bytes (membersChars ms).tail ++ 0x7D :: rest = text
  have hbody : read (depth + 1) (0x7B :: text) =
      members (read depth) (text.length + 1) true text >>= fun taken =>
        .ok (.object taken.1, taken.2.drop 1) := rfl
  rw [hbody, ← htext, members_object h]
  rfl

/-- Such a value is read as itself. -/
theorem Numberless.reads (h : Numberless depth v) : Reads (read depth) v v := by
  induction h with
  | null depth => cases depth <;> exact fun _ => rfl
  | bool depth b => cases depth <;> cases b <;> exact fun _ => rfl
  | string depth s =>
    intro rest
    rw [bytes_string, List.cons_append]
    have hbody : read depth (0x22 :: (quotedTail s ++ rest)) =
        stringBody (quotedTail s ++ rest) >>= fun taken => .ok (.string taken.1, taken.2) := by
      cases depth <;> rfl
    rw [hbody, stringBody_quotedTail]
    rfl
  | @list depth vs hvs ih =>
    intro rest
    rw [bytes_list, List.cons_append, List.append_assoc, List.singleton_append]
    have hbody : read (depth + 1) (0x5B :: (bytes (itemsChars vs).tail ++ 0x5D :: rest)) =
        listBody (read depth) (bytes (itemsChars vs).tail ++ 0x5D :: rest) >>= fun taken =>
          .ok (.list taken.1, taken.2) := rfl
    rw [hbody, listBody_readsAll (readsAll_self (fun v hv => (hvs v hv).opens) ih)]
    rfl
  | @object depth ms hms ih => exact reads_object_self fun m hm => (ih m hm).before

theorem parse_text (h : v.Numberless 127) : parse (Text.utf8 v.text) = .ok v := whole_text h.reads

end Value

end Json

open Json

/-- The kind that an object names is found in its text. -/
theorem namedKeyType?_object {ms : List (String × Value)} {t : KeyType}
    (h : (Value.object ms).Numberless 127)
    (hname : (Value.object ms).member? "keytype" = some (.string t.name)) :
    namedKeyType? (Value.object ms).text = some t := by
  have hbrace : ((Value.object ms).text.toList.dropWhile Text.isBlank).head? = some '\x7b' := by
    rw [Value.text, String.toList_ofList, chars_object, List.cons_append,
      List.dropWhile_cons_of_neg (by decide), List.head?_cons]
  simp [namedKeyType?, hbrace, Value.parse_text h, hname, Except.toOption]

/-- A list does not begin like a document that names a kind. -/
theorem namedKeyType?_list (vs : List Value) : namedKeyType? (Value.list vs).text = none := by
  refine namedKeyType?_eq_none ?_
  rw [Value.text, String.toList_ofList, chars_list, List.cons_append,
    List.dropWhile_cons_of_neg (by decide), List.head?_cons]
  decide

theorem KeyVal.numberless_json (v : KeyVal) : v.json.Numberless 126 := by
  refine .object fun m hm => ?_
  split_ifs at hm
  · obtain rfl := List.mem_singleton.mp hm
    exact .string _ _
  · simp only [List.mem_cons, List.not_mem_nil, or_false] at hm
    rcases hm with rfl | rfl <;> exact .string _ _

theorem KeyPair.numberless_json (k : KeyPair) : k.json.Numberless 127 := by
  refine .object fun m hm => ?_
  simp only [List.mem_append, List.mem_cons, List.not_mem_nil, or_false] at hm
  obtain ((rfl | rfl | rfl) | hattached) | rfl := hm
  · exact .string _ _
  · exact .string _ _
  · exact .string _ _
  · split at hattached
    next algorithms _ =>
      obtain rfl := List.mem_singleton.mp hattached
      refine .list fun v hv => ?_
      obtain ⟨a, -, rfl⟩ := List.mem_map.mp hv
      exact .string _ _
    next => cases hattached
  · exact k.keyval.numberless_json

theorem Metadata.numberless_json (m : Metadata) : m.json.Numberless 127 := by
  refine .object fun member hmember => ?_
  simp only [List.mem_cons, List.not_mem_nil, or_false] at hmember
  rcases hmember with rfl | rfl | rfl
  · exact .string _ _
  · exact .string _ _
  · refine .object fun member hmember => ?_
    obtain rfl := List.mem_singleton.mp hmember
    exact .string _ _

theorem KeyPair.namedKeyType?_document (k : KeyPair) : namedKeyType? k.document = some k.keytype := by
  have hname : k.json.member? "keytype" = some (.string k.keytype.name) := by
    unfold KeyPair.json
    cases k.hashAlgorithms <;> rfl
  exact namedKeyType?_object k.numberless_json hname

theorem Metadata.namedKeyType?_document (m : Metadata) : namedKeyType? m.document = some m.keytype :=
  namedKeyType?_object m.numberless_json rfl

end KeyCustody
