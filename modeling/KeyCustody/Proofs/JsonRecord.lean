import KeyCustody.Proofs.JsonText
/-! # Records and lists there and back

The text of an object is read as a record when each of its members fills an empty field of the draft, and
the text of a list as the list of what its items are read as. -/

namespace KeyCustody.Json

open Text

/-- The text of a value is read as `x`, whatever follows it. -/
def Reads {α : Type} (reader : Reader α) (v : Value) (x : α) : Prop :=
  ∀ rest, reader (bytes v.chars ++ rest) = .ok (x, rest)

/-! ## Texts of values -/

theorem chars_object (ms : List (String × Value)) :
    (Value.object ms).chars = '\x7b' :: (Value.membersChars ms).tail ++ ['\x7d'] := by
  cases ms with
  | nil => rfl
  | cons m ms =>
    obtain ⟨key, v⟩ := m
    simp only [Value.chars, Value.membersChars, List.tail_cons, List.cons_append, List.append_assoc]

theorem chars_list (vs : List Value) :
    (Value.list vs).chars = '[' :: (Value.itemsChars vs).tail ++ [']'] := by
  cases vs with
  | nil => rfl
  | cons v vs => simp only [Value.chars, Value.itemsChars, List.tail_cons, List.cons_append]

def memberBytes (key : String) (v : Value) : Bytes :=
  0x22 :: (quotedTail key ++ 0x3A :: bytes v.chars)

theorem bytes_membersChars (key : String) (v : Value) (ms : List (String × Value)) :
    bytes (Value.membersChars ((key, v) :: ms)) =
      0x2C :: (memberBytes key v ++ bytes (Value.membersChars ms)) := by
  simp only [Value.membersChars, memberBytes, List.cons_append, bytes_cons, bytes_append,
    bytes_quotedChars, List.append_assoc]
  rfl

theorem stringBody_memberBytes (key : String) (v : Value) (more : Bytes) :
    stringBody ((memberBytes key v ++ more).drop 1) = .ok (key, 0x3A :: (bytes v.chars ++ more)) := by
  simp only [memberBytes, List.cons_append, List.drop_succ_cons, List.drop_zero, List.append_assoc]
  exact stringBody_quotedTail key _

theorem bytes_tail_membersChars (key : String) (v : Value) (ms : List (String × Value)) :
    bytes (Value.membersChars ((key, v) :: ms)).tail =
      memberBytes key v ++ bytes (Value.membersChars ms) := by
  have h := bytes_membersChars key v ms
  simp only [Value.membersChars, List.cons_append, List.tail_cons, bytes_cons] at h ⊢
  exact (List.cons.inj h).2

theorem bytes_object (ms : List (String × Value)) :
    bytes (Value.object ms).chars = 0x7B :: (bytes (Value.membersChars ms).tail ++ [0x7D]) := by
  rw [chars_object, List.cons_append, bytes_cons, bytes_append]
  rfl

theorem bytes_list (vs : List Value) :
    bytes (Value.list vs).chars = 0x5B :: (bytes (Value.itemsChars vs).tail ++ [0x5D]) := by
  rw [chars_list, List.cons_append, bytes_cons, bytes_append]
  rfl

theorem bytes_itemsChars (v : Value) (vs : List Value) :
    bytes (Value.itemsChars (v :: vs)) = 0x2C :: (bytes v.chars ++ bytes (Value.itemsChars vs)) := by
  simp only [Value.itemsChars, List.cons_append, bytes_cons, bytes_append]
  rfl

theorem bytes_tail_itemsChars (v : Value) (vs : List Value) :
    bytes (Value.itemsChars (v :: vs)).tail = bytes v.chars ++ bytes (Value.itemsChars vs) := by
  simp only [Value.itemsChars, List.cons_append, List.tail_cons, bytes_append]

theorem bytes_string (s : String) : bytes (Value.string s).chars = 0x22 :: quotedTail s :=
  bytes_quotedChars s

/-! ## Strings and names -/

theorem skipBlanks_cons {b : UInt8} (h : isBlank b = false) (rest : Bytes) :
    skipBlanks (b :: rest) = b :: rest := by
  rw [skipBlanks, List.dropWhile_cons, h]
  rfl

theorem reads_string (s : String) : Reads Json.string (.string s) s := by
  intro rest
  rw [bytes_string, List.cons_append]
  exact stringBody_quotedTail s rest

theorem reads_oneOf {α : Type} {names : List (String × α)} {name : String} {x : α}
    (h : names.lookup name = some x) : Reads (oneOf names) (.string name) x := by
  intro rest
  rw [bytes_string, List.cons_append]
  change named names "variant identifier" (0x22 :: (quotedTail name ++ rest)) = _
  have hbody : stringAs "variant identifier" (0x22 :: (quotedTail name ++ rest)) = .ok (name, rest) :=
    stringBody_quotedTail name rest
  simp only [named, hbody, bind, Except.bind, h]
  rfl

/-! ## Lists -/

/-- What a text of an item must begin with, to be told from the end of a list. -/
def Opens (v : Value) : Prop := ∃ b bs, bytes v.chars = b :: bs ∧ isBlank b = false ∧ b ≠ 0x5D

theorem opens_string (s : String) : Opens (.string s) :=
  ⟨0x22, quotedTail s, bytes_string s, rfl, by decide⟩

theorem opens_list (vs : List Value) : Opens (.list vs) :=
  ⟨0x5B, _, bytes_list vs, rfl, by decide⟩

theorem opens_null : Opens .null := ⟨0x6E, [0x75, 0x6C, 0x6C], rfl, rfl, by decide⟩

theorem nextItem_first {v : Value} (h : Opens v) (rest : Bytes) :
    nextItem true (bytes v.chars ++ rest) = .ok (true, bytes v.chars ++ rest) := by
  obtain ⟨b, bs, hb, hblank, hend⟩ := h
  rw [hb, List.cons_append, nextItem, skipBlanks_cons hblank]
  simp only [if_neg hend, if_true]

theorem nextItem_later {v : Value} (h : Opens v) (rest : Bytes) :
    nextItem false (0x2C :: (bytes v.chars ++ rest)) = .ok (true, bytes v.chars ++ rest) := by
  obtain ⟨b, bs, hb, hblank, hend⟩ := h
  have hcomma : ¬ (0x2C : UInt8) = 0x5D := by decide
  rw [hb, List.cons_append, nextItem, skipBlanks_cons rfl]
  simp only [if_neg hcomma, Bool.false_eq_true, if_false, if_true, skipBlanks_cons hblank,
    if_neg hend]

/-- The texts of some values are read as some items. -/
inductive ReadsAll {α : Type} (reader : Reader α) : List Value → List α → Prop where
  | nil : ReadsAll reader [] []
  | cons {v : Value} {x : α} {vs : List Value} {xs : List α} :
      Opens v → Reads reader v x → ReadsAll reader vs xs → ReadsAll reader (v :: vs) (x :: xs)

theorem items_cons {α : Type} {reader : Reader α} {v : Value} {x : α} {xs : List α} {fuel : Nat}
    {isFirst : Bool} {text more rest : Bytes}
    (hnext : nextItem isFirst text = .ok (true, bytes v.chars ++ more)) (hv : Reads reader v x)
    (htail : items reader fuel false more = .ok (xs, rest)) :
    items reader (fuel + 1) isFirst text = .ok (x :: xs, rest) := by
  simp only [items, hnext, bind, Except.bind, hv more, htail]
  rfl

theorem items_readsAll {α : Type} {reader : Reader α} {vs : List Value} {xs : List α}
    (h : ReadsAll reader vs xs) {fuel : Nat} (hfuel : vs.length < fuel) (rest : Bytes) :
    items reader fuel false (bytes (Value.itemsChars vs) ++ 0x5D :: rest) =
      .ok (xs, 0x5D :: rest) := by
  induction h generalizing fuel with
  | nil =>
    obtain ⟨n, rfl⟩ : ∃ n, fuel = n + 1 := ⟨fuel - 1, by omega⟩
    rfl
  | @cons v x vs xs hopens hv hvs ih =>
    rw [List.length_cons] at hfuel
    obtain ⟨n, rfl⟩ : ∃ n, fuel = n + 1 := ⟨fuel - 1, by omega⟩
    rw [bytes_itemsChars, List.cons_append, List.append_assoc]
    exact items_cons (nextItem_later hopens _) hv (ih (by omega))

theorem length_itemsChars (vs : List Value) : vs.length ≤ (bytes (Value.itemsChars vs)).length := by
  induction vs with
  | nil => exact Nat.zero_le _
  | cons v vs ih =>
    rw [bytes_itemsChars]
    simp only [List.length_append, List.length_cons]
    omega

theorem listBody_readsAll {α : Type} {reader : Reader α} {vs : List Value} {xs : List α}
    (h : ReadsAll reader vs xs) (rest : Bytes) :
    listBody reader (bytes (Value.itemsChars vs).tail ++ 0x5D :: rest) = .ok (xs, rest) := by
  cases h with
  | nil => rfl
  | @cons v x vs xs hopens hv hvs =>
    have htext : bytes (Value.itemsChars (v :: vs)).tail ++ 0x5D :: rest =
        bytes v.chars ++ (bytes (Value.itemsChars vs) ++ 0x5D :: rest) := by
      rw [bytes_tail_itemsChars, List.append_assoc]
    have hitems : ∀ fuel, vs.length < fuel → items reader (fuel + 1) true
        (bytes (Value.itemsChars (v :: vs)).tail ++ 0x5D :: rest) = .ok (x :: xs, 0x5D :: rest) := by
      intro fuel hfuel
      rw [htext]
      exact items_cons (nextItem_first hopens _) hv (items_readsAll hvs hfuel rest)
    have hlength : vs.length < (bytes (Value.itemsChars (v :: vs)).tail ++ 0x5D :: rest).length := by
      have := length_itemsChars vs
      rw [htext]
      simp only [List.length_append, List.length_cons]
      omega
    simp only [listBody, hitems _ hlength, bind, Except.bind]
    rfl

theorem reads_listOf {α : Type} {reader : Reader α} {vs : List Value} {xs : List α}
    (h : ReadsAll reader vs xs) : Reads (listOf reader) (.list vs) xs := by
  intro rest
  rw [bytes_list, List.cons_append, List.append_assoc]
  exact listBody_readsAll h rest

theorem readsAll_map {α : Type} {reader : Reader α} {name : α → String}
    (h : ∀ x, Reads reader (.string (name x)) x) (xs : List α) :
    ReadsAll reader (xs.map fun x => .string (name x)) xs := by
  induction xs with
  | nil => exact .nil
  | cons x xs ih => exact .cons (opens_string _) (h x) ih

/-- A list or `null` is read as a list where there is one. -/
theorem reads_optional_list {α : Type} {reader : Reader α} {vs : List Value} {x : α}
    (h : Reads reader (.list vs) x) : Reads (optional reader) (.list vs) (some x) := by
  intro rest
  have hread := h rest
  rw [bytes_list, List.cons_append] at hread ⊢
  unfold optional
  rw [skipBlanks_cons rfl]
  split
  next heq => cases heq
  next =>
    simp only [hread, bind, Except.bind]
    rfl

theorem reads_optional_null {α : Type} (reader : Reader α) : Reads (optional reader) .null none :=
  fun _ => rfl

/-! ## Records -/

namespace Layout

variable {Draft Record : Type} {layout : Layout Draft Record}

/-- Members that fill empty fields of a draft one after the other, and others that are skipped. -/
inductive Fills (layout : Layout Draft Record) : Draft → List (String × Value) → Draft → Prop where
  | nil (d : Draft) : Fills layout d [] d
  | skip {d d' : Draft} {key : String} {v : Value} {ms : List (String × Value)} :
      layout.fields.find? (·.name == key) = none → Reads Skipped.value v () → Fills layout d ms d' →
      Fills layout d ((key, v) :: ms) d'
  | cons {d d' d'' : Draft} {key : String} {v : Value} {ms : List (String × Value)}
      {field : Field Draft} :
      layout.fields.find? (·.name == key) = some field → field.isFilled d = false →
      Reads (field.fill d) v d' → Fills layout d' ms d'' → Fills layout d ((key, v) :: ms) d''

theorem colon_cons (rest : Bytes) : colon (0x3A :: rest) = .ok ((), rest) := rfl

theorem readMembers_cons {d d' : Draft} {key : String} {v : Value} {field : Field Draft}
    {fuel : Nat} {isFirst : Bool} {text more : Bytes}
    (hnext : nextMember isFirst text = .ok (true, memberBytes key v ++ more))
    (hfield : layout.fields.find? (·.name == key) = some field) (hempty : field.isFilled d = false)
    (hfill : Reads (field.fill d) v d') :
    layout.readMembers (fuel + 1) isFirst d text = layout.readMembers fuel false d' more := by
  simp only [readMembers, hnext, bind, Except.bind, stringBody_memberBytes, hfield, hempty, Bool.false_eq_true,
    if_false, colon_cons, hfill more]

theorem readMembers_skip {d : Draft} {key : String} {v : Value} {fuel : Nat} {isFirst : Bool}
    {text more : Bytes} (hnext : nextMember isFirst text = .ok (true, memberBytes key v ++ more))
    (hfield : layout.fields.find? (·.name == key) = none) (hskip : Reads Skipped.value v ()) :
    layout.readMembers (fuel + 1) isFirst d text = layout.readMembers fuel false d more := by
  simp only [readMembers, hnext, bind, Except.bind, stringBody_memberBytes, hfield, colon_cons, hskip more]

theorem readMembers_fills {d d' : Draft} {ms : List (String × Value)} (h : Fills layout d ms d')
    {fuel : Nat} (hfuel : ms.length < fuel) (rest : Bytes) :
    layout.readMembers fuel false d (bytes (Value.membersChars ms) ++ 0x7D :: rest) =
      .ok (.ok d', 0x7D :: rest) := by
  induction h generalizing fuel with
  | nil d =>
    obtain ⟨n, rfl⟩ : ∃ n, fuel = n + 1 := ⟨fuel - 1, by omega⟩
    rfl
  | @skip d d' key v ms hfield hskip hms ih =>
    rw [List.length_cons] at hfuel
    obtain ⟨n, rfl⟩ : ∃ n, fuel = n + 1 := ⟨fuel - 1, by omega⟩
    rw [bytes_membersChars, List.cons_append, List.append_assoc, readMembers_skip rfl hfield hskip,
      ih (by omega)]
  | @cons d d' d'' key v ms field hfield hempty hfill hms ih =>
    rw [List.length_cons] at hfuel
    obtain ⟨n, rfl⟩ : ∃ n, fuel = n + 1 := ⟨fuel - 1, by omega⟩
    rw [bytes_membersChars, List.cons_append, List.append_assoc,
      readMembers_cons rfl hfield hempty hfill, ih (by omega)]

theorem length_membersChars (ms : List (String × Value)) :
    ms.length ≤ (bytes (Value.membersChars ms)).length := by
  induction ms with
  | nil => exact Nat.zero_le _
  | cons m ms ih =>
    obtain ⟨key, v⟩ := m
    rw [bytes_membersChars]
    simp only [List.length_append, List.length_cons]
    omega

/-- Values that fill the first fields of a draft one after the other. -/
inductive FillsInOrder : List (Field Draft) → Draft → List Value → Draft → Prop where
  | nil (fields : List (Field Draft)) (d : Draft) : FillsInOrder fields d [] d
  | cons {d d' d'' : Draft} {v : Value} {vs : List Value} {field : Field Draft}
      {fields : List (Field Draft)} :
      Opens v → Reads (field.fill d) v d' → FillsInOrder fields d' vs d'' →
      FillsInOrder (field :: fields) d (v :: vs) d''

theorem readItems_cons {d d' : Draft} {v : Value} {field : Field Draft} {fields : List (Field Draft)}
    {isFirst : Bool} {text more : Bytes}
    (hnext : nextItem isFirst text = .ok (true, bytes v.chars ++ more))
    (hfill : Reads (field.fill d) v d') :
    readItems (field :: fields) isFirst d text = readItems fields false d' more := by
  simp only [readItems, hnext, bind, Except.bind, hfill more]

theorem readItems_fills {fields : List (Field Draft)} {d d' : Draft} {vs : List Value}
    (h : FillsInOrder fields d vs d') (rest : Bytes) :
    readItems fields false d (bytes (Value.itemsChars vs) ++ 0x5D :: rest) =
      .ok (d', 0x5D :: rest) := by
  induction h with
  | nil fields d => cases fields <;> rfl
  | @cons d d' d'' v vs field fields hopens hfill hvs ih =>
    rw [bytes_itemsChars, List.cons_append, List.append_assoc,
      readItems_cons (nextItem_later hopens _) hfill, ih]

/-- The text of a list is read as the record that its items fill. -/
theorem reads_list {d : Draft} {record : Record} {vs : List Value}
    (h : FillsInOrder layout.fields layout.empty vs d) (hbuild : layout.build d = .ok record) :
    Reads layout.read (.list vs) record := by
  intro rest
  have hitems : readItems layout.fields true layout.empty
      (bytes (Value.itemsChars vs).tail ++ 0x5D :: rest) = .ok (d, 0x5D :: rest) := by
    generalize layout.fields = fields at h
    cases h with
    | nil => cases fields <;> rfl
    | @cons _ d' _ v vs field fields hopens hfill hvs =>
      rw [bytes_tail_itemsChars, List.append_assoc, readItems_cons (nextItem_first hopens _) hfill,
        readItems_fills hvs]
  have hbrace : ¬ (0x5B : UInt8) = 0x7B := by decide
  rw [bytes_list, List.cons_append, List.append_assoc]
  simp only [read, byFirst, skipBlanks_cons (show isBlank 0x5B = false from rfl), if_neg hbrace, if_true,
    List.singleton_append, hitems, bind, Except.bind, hbuild]
  rfl

/-- The text of an object is read as the record that its members fill. -/
theorem reads_object {d : Draft} {record : Record} {ms : List (String × Value)}
    (h : Fills layout layout.empty ms d) (hbuild : layout.build d = .ok record) :
    Reads layout.read (.object ms) record := by
  intro rest
  have hmembers : layout.readMembers ((bytes (Value.membersChars ms).tail ++ 0x7D :: rest).length + 1)
      true layout.empty (bytes (Value.membersChars ms).tail ++ 0x7D :: rest) =
        .ok (.ok d, 0x7D :: rest) := by
    cases h with
    | nil => rfl
    | @skip _ _ key v ms hfield hskip hms =>
      have hlength := length_membersChars ms
      rw [bytes_tail_membersChars, List.append_assoc, readMembers_skip rfl hfield hskip,
        readMembers_fills hms]
      simp only [List.length_append, List.length_cons]
      omega
    | @cons _ d' _ key v ms field hfield hempty hfill hms =>
      have hlength := length_membersChars ms
      rw [bytes_tail_membersChars, List.append_assoc,
        readMembers_cons rfl hfield hempty hfill, readMembers_fills hms]
      simp only [List.length_append, List.length_cons]
      omega
  rw [bytes_object, List.cons_append, List.append_assoc]
  simp only [read, byFirst, skipBlanks_cons (show isBlank 0x7B = false from rfl), if_true,
    List.singleton_append, hmembers, bind, Except.bind, hbuild]
  rfl

end Layout

end KeyCustody.Json
