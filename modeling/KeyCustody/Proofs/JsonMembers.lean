import KeyCustody.Proofs.JsonSkipping
/-! # One object, two records

A record that asks for fewer members than another one is read from the same object: what it does not ask for is
skipped, and what both ask for stands at the same place. That fails only where both ask for a member and the
narrower record cannot read what the wider one reads there. -/

namespace KeyCustody.Json

variable {bs r r' rest v : Bytes} {isFirst : Bool} {key : String}

/-- After its opening bracket, an object has a member of some name, the value of which begins at `v`. -/
inductive MemberAt (key : String) (v : Bytes) : Bool → Bytes → Prop where
  | here {isFirst : Bool} {bs r₁ r₂ : Bytes} :
      nextMember isFirst bs = .ok (true, r₁) → stringBody (r₁.drop 1) = .ok (key, r₂) →
      colon r₂ = .ok ((), v) → MemberAt key v isFirst bs
  | later {isFirst : Bool} {other : String} {bs r₁ r₂ u r : Bytes} :
      nextMember isFirst bs = .ok (true, r₁) → stringBody (r₁.drop 1) = .ok (other, r₂) →
      colon r₂ = .ok ((), u) → Skipped.value u = .ok ((), r) → MemberAt key v false r →
      MemberAt key v isFirst bs

theorem memberAt_membersChars {before : List (String × Value)} (hbefore : ∀ m ∈ before, Reads Skipped.value m.2 ())
    (key : String) (v : Value) (after : List (String × Value)) (rest : Bytes) :
    ∃ more, MemberAt key (Text.bytes v.chars ++ more) false
      (Text.bytes (Value.membersChars (before ++ (key, v) :: after)) ++ rest) := by
  induction before with
  | nil =>
    rw [List.nil_append, bytes_membersChars, List.cons_append, List.append_assoc]
    exact ⟨_, .here rfl (stringBody_memberBytes key v _) (Layout.colon_cons _)⟩
  | cons m before ih =>
    obtain ⟨other, u⟩ := m
    obtain ⟨more, hmember⟩ := ih fun m hm => hbefore m (List.mem_cons_of_mem _ hm)
    rw [List.cons_append, bytes_membersChars, List.cons_append, List.append_assoc]
    exact ⟨more, .later rfl (stringBody_memberBytes other u _) (Layout.colon_cons _)
      (hbefore _ List.mem_cons_self _) hmember⟩

theorem memberAt_object {before : List (String × Value)} (hbefore : ∀ m ∈ before, Reads Skipped.value m.2 ())
    (key : String) (v : Value) (after : List (String × Value)) :
    ∃ r more, skipBlanks (Text.bytes (Value.object (before ++ (key, v) :: after)).chars) = 0x7B :: r ∧
      MemberAt key (Text.bytes v.chars ++ more) true r := by
  rw [bytes_object, skipBlanks_cons rfl]
  cases before with
  | nil =>
    rw [List.nil_append, bytes_tail_membersChars, List.append_assoc]
    exact ⟨_, _, rfl, .here rfl (stringBody_memberBytes key v _) (Layout.colon_cons _)⟩
  | cons m before =>
    obtain ⟨other, u⟩ := m
    obtain ⟨more, hmember⟩ := memberAt_membersChars (fun m hm => hbefore m (List.mem_cons_of_mem _ hm)) key v
      after [0x7D]
    rw [List.cons_append, bytes_tail_membersChars, List.append_assoc]
    exact ⟨_, more, rfl, .later rfl (stringBody_memberBytes other u _) (Layout.colon_cons _)
      (hbefore _ List.mem_cons_self _) hmember⟩

namespace Layout

variable {Draft Record Draft' Record' : Type} {layout : Layout Draft Record} {d d' : Draft} {record : Record}

/-! ## Records by their brackets -/

theorem read_object_eq_ok (hbs : skipBlanks bs = 0x7B :: r) :
    layout.read bs = .ok (record, rest) ↔
      ∃ d r', layout.readMembers (r.length + 1) true layout.empty r = .ok (.ok d, r') ∧
        layout.build d = .ok record ∧ rest = pastClosing 0x7D r' := by
  unfold read byFirst
  simp only [hbs, if_true]
  constructor
  · intro h
    obtain ⟨⟨parts, r'⟩, hmembers, h⟩ := bind_eq_ok.mp h
    cases parts with
    | error message => cases h
    | ok d =>
      simp only at h
      split at h
      next hbuild =>
        cases h
        exact ⟨d, r', hmembers, hbuild, rfl⟩
      next => cases h
  · rintro ⟨d, r', hmembers, hbuild, rfl⟩
    simp only [hmembers, bind, Except.bind, hbuild]
    rfl

theorem read_list_eq_ok (hbs : skipBlanks bs = 0x5B :: r) :
    layout.read bs = .ok (record, rest) ↔
      ∃ d r', readItems layout.fields true layout.empty r = .ok (d, r') ∧ layout.build d = .ok record ∧
        endOfItems r' = .ok ((), rest) := by
  have hbrace : ¬ (0x5B : UInt8) = 0x7B := by decide
  unfold read byFirst
  simp only [hbs, if_neg hbrace, if_true]
  constructor
  · intro h
    obtain ⟨⟨d, r'⟩, hitems, h⟩ := bind_eq_ok.mp h
    simp only at h
    split at h
    next hbuild =>
      obtain ⟨⟨u, r''⟩, hend, h⟩ := bind_eq_ok.mp h
      cases h
      exact ⟨d, r', hitems, hbuild, hend⟩
    next => cases h
  · rintro ⟨d, r', hitems, hbuild, hend⟩
    simp only [hitems, bind, Except.bind, hbuild, hend]
    rfl

/-- A record stands in brackets of one of two kinds. -/
theorem brackets_of_read (h : layout.read bs = .ok (record, rest)) :
    ∃ r, skipBlanks bs = 0x7B :: r ∨ skipBlanks bs = 0x5B :: r := by
  obtain ⟨b, r, hbs, h⟩ := byFirst_eq_ok.mp h
  split_ifs at h with hbrace hbracket
  · exact ⟨r, .inl (hbrace ▸ hbs)⟩
  · exact ⟨r, .inr (hbracket ▸ hbs)⟩
  · exact absurd h (unexpected_ne_ok _ _ _)

theorem read_ne_of_string {s : String} (h : Json.string bs = .ok (s, r)) (y : Record × Bytes) :
    layout.read bs ≠ .ok y := by
  intro hread
  obtain ⟨b, tail, hbs, h⟩ := byFirst_eq_ok.mp h
  split_ifs at h with hquote
  · subst hquote
    obtain ⟨tail', hbs' | hbs'⟩ := brackets_of_read hread
    · cases hbs.symm.trans hbs'
    · cases hbs.symm.trans hbs'
  · exact unexpected_ne_ok _ _ _ h

/-! ## Fields -/

theorem fill_eq_ok {α : Type} {name : String} {get : Draft → Option α} {reader : Reader α}
    {set : Draft → α → Draft} :
    (Field.of name get reader set).fill d bs = .ok (d', rest) ↔
      ∃ x, reader bs = .ok (x, rest) ∧ d' = set d x := by
  constructor
  · intro h
    obtain ⟨⟨x, r⟩, hread, h⟩ := bind_eq_ok.mp h
    cases h
    exact ⟨x, hread, rfl⟩
  · rintro ⟨x, hread, rfl⟩
    exact bind_eq_ok.mpr ⟨(x, rest), hread, rfl⟩

theorem readItems_cons_eq_ok {field : Field Draft} {fields : List (Field Draft)} :
    readItems (field :: fields) isFirst d bs = .ok (d', r) ↔
      (nextItem isFirst bs = .ok (false, r) ∧ d' = d) ∨
        ∃ r₁ d₁ r₂, nextItem isFirst bs = .ok (true, r₁) ∧ field.fill d r₁ = .ok (d₁, r₂) ∧
          readItems fields false d₁ r₂ = .ok (d', r) := by
  constructor
  · intro h
    obtain ⟨⟨more, r₁⟩, hnext, h⟩ := bind_eq_ok.mp h
    cases more with
    | false =>
      cases h
      exact .inl ⟨hnext, rfl⟩
    | true =>
      obtain ⟨⟨d₁, r₂⟩, hfill, h⟩ := bind_eq_ok.mp h
      exact .inr ⟨r₁, d₁, r₂, hnext, hfill, h⟩
  · rintro (⟨hnext, rfl⟩ | ⟨r₁, d₁, r₂, hnext, hfill, h⟩)
    · exact bind_eq_ok.mpr ⟨_, hnext, rfl⟩
    · exact bind_eq_ok.mpr ⟨_, hnext, bind_eq_ok.mpr ⟨_, hfill, h⟩⟩

section Lists

variable {field : Field Draft} {fields : List (Field Draft)} {field' : Field Draft'}
  {fields' : List (Field Draft')} {e e' : Draft'}

/-- A list that is read as two records ends for both, or goes on with an item that fills a field of each. -/
theorem readItems_both (h : readItems (field :: fields) isFirst d bs = .ok (d', r))
    (h' : readItems (field' :: fields') isFirst e bs = .ok (e', r')) :
    (d' = d ∧ e' = e) ∨ ∃ r₁ d₁ e₁ r₂ r₂', field.fill d r₁ = .ok (d₁, r₂) ∧ field'.fill e r₁ = .ok (e₁, r₂') ∧
      readItems fields false d₁ r₂ = .ok (d', r) ∧ readItems fields' false e₁ r₂' = .ok (e', r') := by
  obtain ⟨hnext, rfl⟩ | ⟨r₁, d₁, r₂, hnext, hfill, h⟩ := readItems_cons_eq_ok.mp h
  · obtain ⟨-, rfl⟩ | ⟨r₁', e₁, r₂', hnext', -⟩ := readItems_cons_eq_ok.mp h'
    · exact .inl ⟨rfl, rfl⟩
    · cases hnext.symm.trans hnext'
  · obtain ⟨hnext', -⟩ | ⟨r₁', e₁, r₂', hnext', hfill', h'⟩ := readItems_cons_eq_ok.mp h'
    · cases hnext.symm.trans hnext'
    · cases hnext.symm.trans hnext'
      exact .inr ⟨r₁, d₁, e₁, r₂, r₂', hfill, hfill', h, h'⟩

theorem readItems_alike {α : Type} {name name' : String} {get : Draft → Option α} {get' : Draft' → Option α}
    {reader : Reader α} {set : Draft → α → Draft} {set' : Draft' → α → Draft'}
    (h : readItems (Field.of name get reader set :: fields) isFirst d bs = .ok (d', r))
    (h' : readItems (Field.of name' get' reader set' :: fields') isFirst e bs = .ok (e', r')) :
    (d' = d ∧ e' = e) ∨ ∃ x r₁, readItems fields false (set d x) r₁ = .ok (d', r) ∧
      readItems fields' false (set' e x) r₁ = .ok (e', r') := by
  refine (readItems_both h h').imp_right ?_
  rintro ⟨r₁, d₁, e₁, r₂, r₂', hfill, hfill', hitems, hitems'⟩
  obtain ⟨x, hread, rfl⟩ := fill_eq_ok.mp hfill
  obtain ⟨x', hread', rfl⟩ := fill_eq_ok.mp hfill'
  cases hread.symm.trans hread'
  exact ⟨x, r₂, hitems, hitems'⟩

end Lists

theorem endOfItems_of_nextItem (h : nextItem isFirst bs = .ok (false, r)) : endOfItems bs = endOfItems r := by
  obtain ⟨tail, hbs, rfl⟩ := of_nextItem_false h
  have hclosing : skipBlanks (0x5D :: tail) = 0x5D :: tail := skipBlanks_of_eq hbs
  unfold endOfItems
  rw [hbs, hclosing]

theorem nextItem_of_endOfItems {u : Unit} (h : endOfItems bs = .ok (u, rest)) (isFirst : Bool) :
    nextItem isFirst bs = .ok (false, 0x5D :: rest) := by
  unfold nextItem
  rw [endOfItems_eq_ok h]
  rfl

/-! ## Members that are asked for -/

/-- A member that a record asks for has been read as its field. -/
theorem fill_of_memberAt (hfields : layout.FieldsTakeValues) {field : Field Draft} {fuel : Nat}
    (hmember : MemberAt key v isFirst bs) (hread : layout.readMembers fuel isFirst d bs = .ok (.ok d', r))
    (hfield : layout.fields.find? (·.name == key) = some field) :
    ∃ d₁ d₂ rest, field.fill d₁ v = .ok (d₂, rest) := by
  induction hmember generalizing fuel d with
  | here hnext hkey hcolon =>
    cases fuel with
    | zero => cases hread
    | succ fuel =>
      simp only [readMembers, hnext, hkey, hfield, hcolon, bind, Except.bind] at hread
      split_ifs at hread
      · cases hread
      · obtain ⟨⟨d₁, r₁⟩, hfill, -⟩ := bind_eq_ok.mp hread
        exact ⟨_, _, _, hfill⟩
  | later hnext hkey hcolon hskip _ ih =>
    cases fuel with
    | zero => cases hread
    | succ fuel =>
      simp only [readMembers, hnext, hkey, bind, Except.bind] at hread
      split at hread
      next =>
        simp only [hcolon, hskip] at hread
        exact ih hread
      next other hother =>
        split_ifs at hread
        · cases hread
        · simp only [hcolon] at hread
          obtain ⟨⟨d₁, r₁⟩, hfill, hread⟩ := bind_eq_ok.mp hread
          have htakes := hfields other (List.mem_of_find?_eq_some hother) d
          obtain rfl := htakes.rest_eq takesValue_skipped hfill hskip
          exact ih hread

/-! ## Narrower records -/

/-- How a record with fewer fields is read along with another one: `held` says what its draft holds of the other
draft, and `legible` what a member must be for the narrower record to read it as well. -/
structure Narrows (wide : Layout Draft Record) (narrow : Layout Draft' Record')
    (held : Draft → Draft' → Prop) (legible : String → Bytes → Prop) (part : Record → Record') : Prop where
  takeValues : wide.FieldsTakeValues
  named : ∀ name ∈ narrow.fields.map Field.name, name ∈ wide.fields.map Field.name
  empty : held wide.empty narrow.empty
  pass : ∀ {field : Field Draft} {d d' : Draft} {e : Draft'} {bs rest : Bytes}, field ∈ wide.fields →
    narrow.fields.find? (·.name == field.name) = none → held d e → field.fill d bs = .ok (d', rest) →
      held d' e
  fill : ∀ {field : Field Draft} {field' : Field Draft'} {d d' : Draft} {e : Draft'} {bs rest : Bytes},
    field ∈ wide.fields → narrow.fields.find? (·.name == field.name) = some field' → held d e →
      field.isFilled d = false → field.fill d bs = .ok (d', rest) → legible field.name bs →
        field'.isFilled e = false ∧ ∃ e', field'.fill e bs = .ok (e', rest) ∧ held d' e'
  build : ∀ {d : Draft} {e : Draft'} {record : Record}, held d e → wide.build d = .ok record →
    narrow.build e = .ok (part record)

section Members

variable {r₁ r₂ u : Bytes} {field : Field Draft} {fuel : Nat}

theorem readMembers_other (hnext : nextMember isFirst bs = .ok (true, r₁))
    (hkey : stringBody (r₁.drop 1) = .ok (key, r₂)) (hcolon : colon r₂ = .ok ((), u))
    (hskip : Skipped.value u = .ok ((), r)) (hfield : layout.fields.find? (·.name == key) = none) :
    layout.readMembers (fuel + 1) isFirst d bs = layout.readMembers fuel false d r := by
  simp only [readMembers, hnext, hkey, hfield, hcolon, hskip, bind, Except.bind]

theorem readMembers_field (hnext : nextMember isFirst bs = .ok (true, r₁))
    (hkey : stringBody (r₁.drop 1) = .ok (key, r₂)) (hcolon : colon r₂ = .ok ((), u))
    (hfield : layout.fields.find? (·.name == key) = some field) (hempty : field.isFilled d = false)
    (hfill : field.fill d u = .ok (d', r)) :
    layout.readMembers (fuel + 1) isFirst d bs = layout.readMembers fuel false d' r := by
  simp only [readMembers, hnext, hkey, hfield, hempty, Bool.false_eq_true, if_false, hcolon, hfill, bind,
    Except.bind]

end Members

namespace Narrows

variable {wide : Layout Draft Record} {narrow : Layout Draft' Record'} {held : Draft → Draft' → Prop}
  {legible : String → Bytes → Prop} {part : Record → Record'} {e : Draft'}

theorem find?_eq_none (h : wide.Narrows narrow held legible part)
    (hnone : wide.fields.find? (·.name == key) = none) : narrow.fields.find? (·.name == key) = none := by
  rw [List.find?_eq_none] at hnone ⊢
  intro field' hfield'
  obtain ⟨field, hfield, hname⟩ := List.mem_map.mp (h.named _ (List.mem_map_of_mem hfield'))
  exact hname ▸ hnone field hfield

/-- Both records go through the members side by side. -/
theorem readMembers (h : wide.Narrows narrow held legible part) {fuel : Nat}
    (hread : wide.readMembers fuel isFirst d bs = .ok (.ok d', r)) (hheld : held d e)
    (hlegible : ∀ key v, MemberAt key v isFirst bs → legible key v) :
    ∃ e', narrow.readMembers fuel isFirst e bs = .ok (.ok e', r) ∧ held d' e' := by
  induction fuel generalizing isFirst bs d e with
  | zero => cases hread
  | succ fuel ih =>
    obtain ⟨⟨more, r₁⟩, hnext, hread⟩ := bind_eq_ok.mp hread
    cases more with
    | false =>
      cases hread
      refine ⟨e, ?_, hheld⟩
      simp only [Layout.readMembers, hnext, bind, Except.bind]
      rfl
    | true =>
      obtain ⟨⟨key, r₂⟩, hkey, hread⟩ := bind_eq_ok.mp hread
      simp only at hread
      split at hread
      next hnone =>
        obtain ⟨⟨u, r₃⟩, hcolon, hread⟩ := bind_eq_ok.mp hread
        obtain ⟨⟨u', r₄⟩, hskip, hread⟩ := bind_eq_ok.mp hread
        obtain ⟨e', hnarrow, hheld'⟩ := ih hread hheld fun key v hmember =>
          hlegible key v (.later hnext hkey hcolon hskip hmember)
        exact ⟨e', (readMembers_other hnext hkey hcolon hskip (h.find?_eq_none hnone)).trans hnarrow, hheld'⟩
      next field hfield =>
        split_ifs at hread with hfilled
        · cases hread
        · obtain ⟨⟨u, r₃⟩, hcolon, hread⟩ := bind_eq_ok.mp hread
          obtain ⟨⟨d₁, r₄⟩, hfill, hread⟩ := bind_eq_ok.mp hread
          have hmem := List.mem_of_find?_eq_some hfield
          have hskip := (h.takeValues field hmem d).skipped hfill
          obtain rfl : field.name = key := by simpa using List.find?_some hfield
          have hrest : ∀ key v, MemberAt key v false r₄ → legible key v := fun key v hmember =>
            hlegible key v (.later hnext hkey hcolon hskip hmember)
          cases hfield' : narrow.fields.find? (·.name == field.name) with
          | none =>
            obtain ⟨e', hnarrow, hheld'⟩ := ih hread (h.pass hmem hfield' hheld hfill) hrest
            exact ⟨e', (readMembers_other hnext hkey hcolon hskip hfield').trans hnarrow, hheld'⟩
          | some field' =>
            obtain ⟨hempty, e₁, hfill', hheld₁⟩ := h.fill hmem hfield' hheld (Bool.eq_false_iff.mpr hfilled)
              hfill (hlegible _ _ (.here hnext hkey hcolon))
            obtain ⟨e', hnarrow, hheld'⟩ := ih hread hheld₁ hrest
            exact ⟨e', (readMembers_field hnext hkey hcolon hfield' hempty hfill').trans hnarrow, hheld'⟩

/-- The narrower record is read from an object all members of which are legible. -/
theorem read (h : wide.Narrows narrow held legible part) (hbs : skipBlanks bs = 0x7B :: r)
    (hread : wide.read bs = .ok (record, rest)) (hlegible : ∀ key v, MemberAt key v true r → legible key v) :
    narrow.read bs = .ok (part record, rest) := by
  obtain ⟨d, r', hmembers, hbuild, rfl⟩ := (read_object_eq_ok hbs).mp hread
  obtain ⟨e, hnarrow, hheld⟩ := h.readMembers hmembers h.empty hlegible
  exact (read_object_eq_ok hbs).mpr ⟨e, r', hnarrow, h.build hheld hbuild, rfl⟩

end Narrows

end Layout

end KeyCustody.Json
