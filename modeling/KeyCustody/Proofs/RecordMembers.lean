import KeyCustody.Proofs.JsonMembers
/-! # Records read off any text of an object

A reader of data of a known shape obtains some data from a value if it reads those data wherever the value
stands: with any blanks and escapes, and whatever comes after it. A record whose fields are obtained from the
members of an object is obtained from the object. -/

namespace KeyCustody.Json

variable {α : Type} {reader : Reader α} {v : Value} {x : α} {bs r rest : Bytes} {isFirst : Bool}

/-- Wherever `v` stands, `reader` reads `x` and stops where the value ends. -/
def Obtains (reader : Reader α) (v : Value) (x : α) : Prop :=
  ∀ ⦃depth : Nat⦄ ⦃bs rest : Bytes⦄, Value.read depth bs = .ok (v, rest) → reader bs = .ok (x, rest)

/-! ## Data without brackets -/

theorem obtains_oneOf {names : List (String × α)} {name : String} (hname : names.lookup name = some x) :
    Obtains (oneOf names) (.string name) x := by
  intro depth bs rest h
  obtain ⟨r, hbs, hbody⟩ := Value.read_string h
  have hstring : stringAs "variant identifier" (0x22 :: r) = .ok (name, rest) := hbody
  simp only [oneOf, hbs, if_true]
  exact named_eq_ok.mpr ⟨name, hstring, hname⟩

theorem obtains_naturalBelow {bound n : Nat} (title : String) (hn : n < bound) :
    Obtains (naturalBelow bound title) (.number (.natural n)) n := by
  intro depth bs rest h
  obtain ⟨b, r, hbs, hb, hread⟩ := Value.stands_of_read h
  refine byFirst_eq_ok.mpr ⟨b, r, hbs, ?_⟩
  simp only [if_pos hb, hread, bind, Except.bind, if_pos hn]
  rfl

theorem Value.read_skipBlanks (depth : Nat) (bs : Bytes) : read depth (skipBlanks bs) = read depth bs := by
  cases depth <;> simp only [read, simple, skipBlanks_skipBlanks]

theorem Value.Stands.eq_null {depth : Nat} (h : v.Stands depth 0x6E r rest) : v = .null := by
  cases v with
  | null => rfl
  | bool value =>
    cases value with
    | true => exact absurd h.1 (by decide)
    | false => exact absurd h.1 (by decide)
  | number n => exact absurd h.1 (by decide)
  | string s => exact absurd h.1 (by decide)
  | list vs => exact absurd h.1 (by decide)
  | object ms => exact absurd h.1 (by decide)

theorem obtains_optional_null (reader : Reader α) : Obtains (optional reader) .null none := by
  intro depth bs rest h
  obtain ⟨b, r, hbs, rfl, hword⟩ := Value.stands_of_read h
  simp only [optional, hbs, hword, bind, Except.bind]
  rfl

theorem obtains_optional (hv : v ≠ .null) (h : Obtains reader v x) :
    Obtains (optional reader) v (some x) := by
  intro depth bs rest hread
  have hx : reader (skipBlanks bs) = .ok (x, rest) := h ((Value.read_skipBlanks depth bs).trans hread)
  unfold optional
  split
  next tail hbs =>
    obtain ⟨b, r, hbs', hstands⟩ := Value.stands_of_read hread
    cases hbs.symm.trans hbs'
    exact absurd hstands.eq_null hv
  next =>
    simp only [hx, bind, Except.bind]
    rfl

/-! ## Lists -/

theorem items_obtains {depth fuel : Nat} {vs : List Value} {xs : List α}
    (hitems : items (Value.read depth) fuel isFirst bs = .ok (vs, r))
    (h : List.Forall₂ (Obtains reader) vs xs) :
    items reader fuel isFirst bs = .ok (xs, r) := by
  induction fuel generalizing isFirst bs vs xs with
  | zero => cases hitems
  | succ fuel ih =>
    obtain ⟨⟨more, r₁⟩, hnext, hitems⟩ := bind_eq_ok.mp hitems
    cases more with
    | false =>
      cases hitems
      cases h
      exact bind_eq_ok.mpr ⟨_, hnext, rfl⟩
    | true =>
      obtain ⟨⟨v, r₂⟩, hread, hitems⟩ := bind_eq_ok.mp hitems
      obtain ⟨⟨tail, r₃⟩, htail, hitems⟩ := bind_eq_ok.mp hitems
      cases hitems
      cases h with
      | cons hv hvs =>
        exact bind_eq_ok.mpr ⟨_, hnext,
          bind_eq_ok.mpr ⟨_, hv hread, bind_eq_ok.mpr ⟨_, ih htail hvs, rfl⟩⟩⟩

theorem obtains_listOf {vs : List Value} {xs : List α} (h : List.Forall₂ (Obtains reader) vs xs) :
    Obtains (listOf reader) (.list vs) xs := by
  intro depth bs rest hread
  obtain ⟨b, r, hbs, rfl, inner, -, hbody⟩ := Value.stands_of_read hread
  obtain ⟨⟨vs', r₁⟩, hitems, hbody⟩ := bind_eq_ok.mp hbody
  cases hbody
  exact byFirst_eq_ok.mpr ⟨0x5B, r, hbs, bind_eq_ok.mpr ⟨_, items_obtains hitems h, rfl⟩⟩

/-! ## Records -/

namespace Layout

variable {Draft Record : Type} {layout : Layout Draft Record} {d d' : Draft} {ms : List (String × Value)}

theorem obtains_fill {name : String} {get : Draft → Option α} {set : Draft → α → Draft}
    (h : Obtains reader v x) (d : Draft) : Obtains ((Field.of name get reader set).fill d) v (set d x) :=
  fun _ _ _ hread => fill_eq_ok.mpr ⟨x, h hread, rfl⟩

/-- How the members of an object fill a draft one after the other, each of them a field that was empty. -/
inductive Collects (layout : Layout Draft Record) : Draft → List (String × Value) → Draft → Prop where
  | nil (d : Draft) : Collects layout d [] d
  | fill {d d' d'' : Draft} {key : String} {v : Value} {ms : List (String × Value)}
      {field : Field Draft} :
      layout.fields.find? (·.name == key) = some field → field.isFilled d = false →
      Obtains (field.fill d) v d' → Collects layout d' ms d'' → Collects layout d ((key, v) :: ms) d''

/-- The record is read member by member where the members of the object are. -/
theorem readMembers_collects (h : layout.Collects d ms d') {depth fuel : Nat}
    (hmembers : members (Value.read depth) fuel isFirst bs = .ok (ms, r)) :
    layout.readMembers fuel isFirst d bs = .ok (.ok d', r) := by
  induction fuel generalizing isFirst bs d ms with
  | zero => cases hmembers
  | succ fuel ih =>
    obtain ⟨⟨more, r₁⟩, hnext, hmembers⟩ := bind_eq_ok.mp hmembers
    cases more with
    | false =>
      cases hmembers
      cases h
      exact bind_eq_ok.mpr ⟨_, hnext, rfl⟩
    | true =>
      obtain ⟨⟨key, r₂⟩, hkey, hmembers⟩ := bind_eq_ok.mp hmembers
      obtain ⟨⟨u, r₃⟩, hcolon, hmembers⟩ := bind_eq_ok.mp hmembers
      obtain ⟨⟨v, r₄⟩, hread, hmembers⟩ := bind_eq_ok.mp hmembers
      obtain ⟨⟨tail, r₅⟩, htail, hmembers⟩ := bind_eq_ok.mp hmembers
      cases hmembers
      cases h with
      | fill hfield hempty hfill hrest =>
        rw [readMembers_field hnext hkey hcolon hfield hempty (hfill hread)]
        exact ih hrest htail

/-- A record is obtained from the object whose members fill its fields. -/
theorem obtains_object {record : Record} (h : layout.Collects layout.empty ms d)
    (hbuild : layout.build d = .ok record) : Obtains layout.read (.object ms) record := by
  intro depth bs rest hread
  obtain ⟨b, r, hbs, rfl, inner, r', -, hmembers, rfl⟩ := Value.stands_of_read hread
  refine (read_object_eq_ok hbs).mpr ⟨d, r', readMembers_collects h hmembers, hbuild, ?_⟩
  obtain ⟨rest, rfl, -⟩ := reaches_members (Value.takesValue_read inner) hmembers
  exact (pastClosing_cons rfl rest).symm

end Layout

/-- What is obtained from a value is read off every text of that value. -/
theorem whole_obtains {text : Bytes} (h : Obtains reader v x) (hparse : Value.parse text = .ok v) :
    whole reader text = .ok x := by
  obtain ⟨rest, hread, hend⟩ := whole_eq_ok.mp hparse
  exact whole_eq_ok.mpr ⟨rest, h hread, hend⟩

end KeyCustody.Json
