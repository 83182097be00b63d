import KeyCustody.Proofs.JsonReaders
/-! # Reading a record takes one value

Readers of data of a known shape take one value, as reading any value does. Where a text can be read both
as a record and as any value, the two readings go through the same members side by side, and a field is
filled by what is the value of a member of its name. -/

namespace KeyCustody.Json

open StateTransition Outline

variable {α : Type} {x : α} {bs r rest : Bytes} {isFirst : Bool}

/-! ## Data of a known shape -/

theorem takesValue_stringAs (expected : String) : TakesValue (stringAs expected) := by
  intro bs s rest h
  obtain ⟨b, r, hbs, h⟩ := byFirst_eq_ok.mp h
  split_ifs at h with hquote
  · subst hquote
    exact reaches_of_opening (by rw [hbs, opening_string h])
  · exact absurd h (unexpected_ne_ok _ _ _)

theorem named_eq_ok {names : List (String × α)} {expected : String} :
    named names expected bs = .ok (x, rest) ↔
      ∃ name, stringAs expected bs = .ok (name, rest) ∧ names.lookup name = some x := by
  refine ⟨fun h => ?_, ?_⟩
  · obtain ⟨⟨name, r⟩, hname, h⟩ := bind_eq_ok.mp h
    simp only at h
    split at h
    next y hlookup =>
      cases h
      exact ⟨name, hname, hlookup⟩
    next => cases h
  · rintro ⟨name, hname, hlookup⟩
    simp only [named, hname, bind, Except.bind, hlookup]
    rfl

/-- Where a string stands, the value is the one of that name. -/
theorem lookup_of_oneOf {names : List (String × α)} {depth : Nat} {name : String}
    (h : oneOf names bs = .ok (x, rest)) (hstring : Value.read depth bs = .ok (.string name, r)) :
    names.lookup name = some x := by
  obtain ⟨tail, hbs, hbody⟩ := Value.read_string hstring
  simp only [oneOf, hbs, if_true] at h
  obtain ⟨name', hname, hlookup⟩ := named_eq_ok.mp h
  obtain ⟨b, tail', htail, hname⟩ := byFirst_eq_ok.mp hname
  rw [skipBlanks_of_eq hbs] at htail
  cases htail
  rw [if_pos rfl, hbody] at hname
  cases hname
  exact hlookup

theorem takesValue_oneOf (names : List (String × α)) : TakesValue (oneOf names) := by
  intro bs x rest h
  unfold oneOf at h
  split at h
  · cases h
  next b tail hbs =>
    split_ifs at h with hquote hbrace
    · obtain ⟨name, hname, -⟩ := named_eq_ok.mp h
      rw [← hbs] at hname
      exact reaches_skipBlanks (takesValue_stringAs _ _ _ _ hname)
    · obtain ⟨⟨y, r₁⟩, hnamed, h⟩ := bind_eq_ok.mp h
      obtain ⟨⟨u, r₂⟩, hcolon, h⟩ := bind_eq_ok.mp h
      obtain ⟨⟨u', r₃⟩, hnull, h⟩ := bind_eq_ok.mp h
      obtain ⟨name, hname, -⟩ := named_eq_ok.mp hnamed
      obtain ⟨b', r, htail, hname⟩ := byFirst_eq_ok.mp hname
      split_ifs at hname with hquote'
      · subst hbrace hquote'
        have hmember : nextMember true tail = .ok (true, 0x22 :: r) := by
          rw [nextMember, htail]
          rfl
        obtain ⟨c, r', hr₂, hword⟩ := byFirst_eq_ok.mp hnull
        split_ifs at hword with hletter
        · subst hletter
          have hend : skipBlanks r₃ = 0x7D :: rest := by
            simp only at h
            split at h
            · cases h
            next hr₃ =>
              split_ifs at h with hclose
              · cases h
                rw [hr₃, hclose]
              · cases h
          refine reaches_of_bracket (by rw [hbs]; rfl) (.trans (reaches_inside
            (step_nextMember hmember hname hcolon) (reaches_of_opening ?_)) (.single (step_closer _ hend)))
          rw [hr₂, opening_null hword]
        · exact absurd hword (unexpected_ne_ok _ _ _)
      · exact absurd hname (unexpected_ne_ok _ _ _)
    · cases h

theorem takesValue_optional {reader : Reader α} (hreader : TakesValue reader) :
    TakesValue (optional reader) := by
  intro bs x rest h
  unfold optional at h
  split at h
  next tail hbs =>
    obtain ⟨⟨u, r⟩, hword, h⟩ := bind_eq_ok.mp h
    cases h
    exact reaches_of_opening (by rw [hbs, opening_null hword])
  next =>
    obtain ⟨⟨y, r⟩, hread, h⟩ := bind_eq_ok.mp h
    cases h
    exact reaches_skipBlanks (hreader _ _ _ hread)

theorem takesValue_listOf {item : Reader α} (hitem : TakesValue item) : TakesValue (listOf item) := by
  intro bs xs rest h
  obtain ⟨b, r, hbs, h⟩ := byFirst_eq_ok.mp h
  split_ifs at h with hbracket
  · subst hbracket
    exact reaches_listBody hitem hbs h
  · exact absurd h (unexpected_ne_ok _ _ _)

theorem takesValue_field {Draft : Type} {name : String} {get : Draft → Option α} {reader : Reader α}
    (hreader : TakesValue reader) (set : Draft → α → Draft) (d : Draft) :
    TakesValue ((Field.of name get reader set).fill d) := by
  intro bs d' rest h
  obtain ⟨⟨y, r⟩, hread, h⟩ := bind_eq_ok.mp h
  cases h
  exact hreader _ _ _ hread

/-! ## Records -/

namespace Layout

variable {Draft Record : Type} {layout : Layout Draft Record} {d d' : Draft}

/-- Every field of a record is read as a value. -/
def FieldsTakeValues (layout : Layout Draft Record) : Prop :=
  ∀ field ∈ layout.fields, ∀ d, TakesValue (field.fill d)

theorem reaches_readMembers (hfields : layout.FieldsTakeValues) {fuel : Nat}
    (h : layout.readMembers fuel isFirst d bs = .ok (.ok d', r)) :
    ∃ rest, r = 0x7D :: rest ∧ Reaches step (inside .object isFirst bs) (.ended [] rest) := by
  induction fuel generalizing isFirst bs d with
  | zero => cases h
  | succ fuel ih =>
    obtain ⟨⟨more, r₁⟩, hnext, h⟩ := bind_eq_ok.mp h
    cases more with
    | false =>
      cases h
      obtain ⟨rest, hbs, rfl⟩ := of_nextMember_false hnext
      exact ⟨rest, rfl, .single (step_closer isFirst hbs)⟩
    | true =>
      obtain ⟨⟨key, r₂⟩, hkey, h⟩ := bind_eq_ok.mp h
      simp only at h
      split at h
      next =>
        obtain ⟨⟨u, r₃⟩, hcolon, h⟩ := bind_eq_ok.mp h
        obtain ⟨⟨u', r₄⟩, hskip, h⟩ := bind_eq_ok.mp h
        obtain ⟨rest, hr, hrun⟩ := ih h
        exact ⟨rest, hr, (reaches_inside (step_nextMember hnext hkey hcolon)
          (takesValue_skipped _ _ _ hskip)).trans hrun⟩
      next field hfield =>
        split_ifs at h
        · cases h
        · obtain ⟨⟨u, r₃⟩, hcolon, h⟩ := bind_eq_ok.mp h
          obtain ⟨⟨d₁, r₄⟩, hfill, h⟩ := bind_eq_ok.mp h
          obtain ⟨rest, hr, hrun⟩ := ih h
          have htakes := hfields field (List.mem_of_find?_eq_some hfield) d
          exact ⟨rest, hr, (reaches_inside (step_nextMember hnext hkey hcolon)
            (htakes _ _ _ hfill)).trans hrun⟩

theorem endOfItems_eq_ok {u : Unit} (h : endOfItems bs = .ok (u, rest)) :
    skipBlanks bs = 0x5D :: rest := by
  unfold endOfItems at h
  split at h
  · cases h
  next b tail hbs =>
    split_ifs at h with hclose hcomma
    · cases h
      rw [hbs, hclose]
    · split at h
      · split_ifs at h
        · cases h
        · cases h
      · cases h
    · cases h

theorem reaches_readItems {fields : List (Field Draft)}
    (hfields : ∀ field ∈ fields, ∀ d, TakesValue (field.fill d)) {u : Unit}
    (h : readItems fields isFirst d bs = .ok (d', r)) (hend : endOfItems r = .ok (u, rest)) :
    Reaches step (inside .list isFirst bs) (.ended [] rest) := by
  induction fields generalizing isFirst bs d with
  | nil =>
    cases h
    exact .single (step_closer isFirst (endOfItems_eq_ok hend))
  | cons field fields ih =>
    obtain ⟨⟨more, r₁⟩, hnext, h⟩ := bind_eq_ok.mp h
    cases more with
    | false =>
      cases h
      obtain ⟨tail, hbs, rfl⟩ := of_nextItem_false hnext
      obtain rfl : rest = tail := by
        have hsame := endOfItems_eq_ok hend
        rw [skipBlanks_of_eq hbs] at hsame
        exact (List.cons.inj hsame).2.symm
      exact .single (step_closer isFirst hbs)
    | true =>
      obtain ⟨⟨d₁, r₂⟩, hfill, h⟩ := bind_eq_ok.mp h
      have htakes := hfields field List.mem_cons_self d
      exact (reaches_inside (step_nextItem hnext) (htakes _ _ _ hfill)).trans
        (ih (fun field hfield => hfields field (List.mem_cons_of_mem _ hfield)) h)

theorem pastClosing_cons {bracket : UInt8} (hblank : isBlank bracket = false) (rest : Bytes) :
    pastClosing bracket (bracket :: rest) = rest := by
  unfold pastClosing
  rw [skipBlanks, List.dropWhile_cons, hblank]
  exact if_pos rfl

/-- A record stands in brackets, as an object or as a list. -/
theorem read_inside (hfields : layout.FieldsTakeValues) {record : Record}
    (h : layout.read bs = .ok (record, rest)) :
    ∃ bracket r, Skipped.opening (skipBlanks bs) = .ok (some bracket, r) ∧
      Reaches step (inside bracket true r) (.ended [] rest) := by
  obtain ⟨b, r, hbs, h⟩ := byFirst_eq_ok.mp h
  split_ifs at h with hbrace hbracket
  · subst hbrace
    obtain ⟨⟨parts, r₁⟩, hmembers, h⟩ := bind_eq_ok.mp h
    cases parts with
    | error message => cases h
    | ok d =>
      simp only at h
      split at h
      next =>
        cases h
        obtain ⟨rest, rfl, hrun⟩ := reaches_readMembers hfields hmembers
        rw [pastClosing_cons rfl]
        exact ⟨.object, r, by rw [hbs]; rfl, hrun⟩
      next => cases h
  · subst hbracket
    obtain ⟨⟨d, r₁⟩, hitems, h⟩ := bind_eq_ok.mp h
    simp only at h
    split at h
    next =>
      obtain ⟨⟨u, r₂⟩, hend, h⟩ := bind_eq_ok.mp h
      cases h
      exact ⟨.list, r, by rw [hbs]; rfl, reaches_readItems hfields hitems hend⟩
    next => cases h
  · exact absurd h (unexpected_ne_ok _ _ _)

theorem takesValue_read (hfields : layout.FieldsTakeValues) : TakesValue layout.read := by
  intro bs record rest h
  obtain ⟨bracket, r, hopening, hrun⟩ := read_inside hfields h
  exact reaches_of_bracket hopening hrun

/-! ## Two readings of an object -/

/-- How the members of an object fill a draft: a member of a field's name by what that field makes of its
value, and any other member not at all. -/
inductive Gathers (layout : Layout Draft Record) : Draft → List (String × Value) → Draft → Prop where
  | nil (d : Draft) : Gathers layout d [] d
  | skip {d d' : Draft} {key : String} (v : Value) {ms : List (String × Value)} :
      layout.fields.find? (·.name == key) = none → Gathers layout d ms d' →
      Gathers layout d ((key, v) :: ms) d'
  | fill {d d' d'' : Draft} {key : String} {v : Value} {ms : List (String × Value)}
      {field : Field Draft} {depth : Nat} {bs rest : Bytes} :
      layout.fields.find? (·.name == key) = some field → field.isFilled d = false →
      Value.read depth bs = .ok (v, rest) → field.fill d bs = .ok (d', rest) →
      Gathers layout d' ms d'' → Gathers layout d ((key, v) :: ms) d''

/-- Both readings of the members go from key to key at the same places. -/
theorem gathers_of_members (hfields : layout.FieldsTakeValues) {depth fuel fuel' : Nat}
    {ms : List (String × Value)} {r' : Bytes}
    (hrecord : layout.readMembers fuel isFirst d bs = .ok (.ok d', r))
    (hvalue : members (Value.read depth) fuel' isFirst bs = .ok (ms, r')) :
    Gathers layout d ms d' := by
  -- what a member's value leaves is the same for both readings, so the next keys stand at the same place
  induction fuel generalizing fuel' isFirst bs d ms with
  | zero => cases hrecord
  | succ fuel ih =>
    cases fuel' with
    | zero => cases hvalue
    | succ fuel' =>
      obtain ⟨⟨more, r₁⟩, hnext, hvalue⟩ := bind_eq_ok.mp hvalue
      simp only [readMembers, hnext, bind, Except.bind] at hrecord
      cases more with
      | false =>
        cases hvalue
        cases hrecord
        exact .nil _
      | true =>
        obtain ⟨⟨key, r₂⟩, hkey, hvalue⟩ := bind_eq_ok.mp hvalue
        obtain ⟨⟨u, r₃⟩, hcolon, hvalue⟩ := bind_eq_ok.mp hvalue
        obtain ⟨⟨v, r₄⟩, hread, hvalue⟩ := bind_eq_ok.mp hvalue
        obtain ⟨⟨tail, r₅⟩, htail, hvalue⟩ := bind_eq_ok.mp hvalue
        cases hvalue
        simp only [hkey] at hrecord
        split at hrecord
        next hfield =>
          simp only [hcolon] at hrecord
          obtain ⟨⟨u', r₆⟩, hskip, hrecord⟩ := bind_eq_ok.mp hrecord
          obtain rfl : r₆ = r₄ := takesValue_skipped.rest_eq (Value.takesValue_read depth) hskip hread
          exact .skip v hfield (ih hrecord htail)
        next field hfield =>
          split_ifs at hrecord with hfilled
          · cases hrecord
          · simp only [hcolon] at hrecord
            obtain ⟨⟨d₁, r₆⟩, hfill, hrecord⟩ := bind_eq_ok.mp hrecord
            have htakes := hfields field (List.mem_of_find?_eq_some hfield) d
            obtain rfl : r₆ = r₄ := htakes.rest_eq (Value.takesValue_read depth) hfill hread
            exact .fill hfield (Bool.eq_false_iff.mpr hfilled) hread hfill (ih hrecord htail)

/-- A record that any reader of values takes for an object has been gathered from its members. -/
theorem gathers_of_read (hfields : layout.FieldsTakeValues) {record : Record} {depth : Nat}
    {ms : List (String × Value)} (hrecord : layout.read bs = .ok (record, r))
    (hvalue : Value.read depth bs = .ok (.object ms, rest)) :
    ∃ d, Gathers layout layout.empty ms d ∧ layout.build d = .ok record := by
  obtain ⟨inner, r₁, r₂, hbs, hmembers⟩ := Value.read_object hvalue
  obtain ⟨b, r₃, hbs', hrecord⟩ := byFirst_eq_ok.mp hrecord
  rw [hbs] at hbs'
  cases hbs'
  rw [if_pos rfl] at hrecord
  obtain ⟨⟨parts, r₄⟩, hparts, hrecord⟩ := bind_eq_ok.mp hrecord
  cases parts with
  | error message => cases hrecord
  | ok d =>
    simp only at hrecord
    split at hrecord
    next record' hbuild =>
      cases hrecord
      exact ⟨d, gathers_of_members hfields hparts hmembers, hbuild⟩
    next => cases hrecord

end Layout

theorem mapError_eq_ok {ε ε' : Type} {f : ε → ε'} {a : Except ε α} :
    a.mapError f = .ok x ↔ a = .ok x := by
  cases a with
  | error fault =>
    constructor
    · intro h
      cases h
    · intro h
      cases h
  | ok y =>
    constructor
    · intro h
      cases h
      rfl
    · intro h
      cases h
      rfl

theorem mapError_eq_error {ε ε' : Type} {f : ε → ε'} {a : Except ε α} {e : ε'} :
    a.mapError f = .error e ↔ ∃ fault, a = .error fault ∧ e = f fault := by
  cases a <;> simp [Except.mapError, eq_comm]

theorem whole_eq_ok {reader : Reader α} {text : Bytes} :
    whole reader text = .ok x ↔ ∃ rest, reader text = .ok (x, rest) ∧ skipBlanks rest = [] := by
  rw [whole, mapError_eq_ok, bind_eq_ok]
  constructor
  · rintro ⟨⟨y, rest⟩, hread, h⟩
    simp only at h
    split at h
    next hrest =>
      cases h
      exact ⟨rest, hread, hrest⟩
    next => cases h
  · rintro ⟨rest, hread, hrest⟩
    refine ⟨(x, rest), hread, ?_⟩
    simp only [hrest]
    rfl

end KeyCustody.Json
