import KeyCustody.Json.Record
import KeyCustody.Proofs.JsonScalars
/-! # Reading a JSON value takes one value

What is taken off a text in reading it as a value has the outline of one value. Inside brackets the next
item or member is one step of the outline, and readers of lists and objects inherit the property from the
readers of their parts. -/

namespace KeyCustody.Json

open StateTransition Outline

variable {α : Type} {x : α} {b : UInt8} {bs r rest : Bytes} {isFirst : Bool}

/-! ## Values without brackets -/

theorem byFirst_eq_ok {read : UInt8 → Reader α} :
    byFirst read bs = .ok (x, rest) ↔ ∃ b r, skipBlanks bs = b :: r ∧ read b r = .ok (x, rest) := by
  unfold byFirst
  cases skipBlanks bs with
  | nil => simp [faultPast]
  | cons b r => simp

theorem unexpected_ne_ok (expected : String) (bs : Bytes) (y : α × Bytes) :
    unexpected expected bs ≠ .ok y := by
  intro h
  cases bs with
  | nil => cases h
  | cons b bs =>
    simp only [unexpected] at h
    split_ifs at h
    · obtain ⟨x, -, h⟩ := bind_eq_ok.mp h
      cases h
    · obtain ⟨x, -, h⟩ := bind_eq_ok.mp h
      cases h
    · obtain ⟨x, -, h⟩ := bind_eq_ok.mp h
      cases h
    · obtain ⟨x, -, h⟩ := bind_eq_ok.mp h
      cases h
    · obtain ⟨x, -, h⟩ := bind_eq_ok.mp h
      cases h
    · cases h
    · cases h
    · cases h

theorem opening_null {u : Unit} (h : word [0x75, 0x6C, 0x6C] bs = .ok (u, rest)) :
    Skipped.opening (0x6E :: bs) = .ok (none, rest) := by
  simp only [Skipped.opening, if_true, h, bind, Except.bind]
  rfl

theorem opening_string {s : String} (h : stringBody bs = .ok (s, rest)) :
    Skipped.opening (0x22 :: bs) = .ok (none, rest) := by
  have hskip := skip_stringBody h
  have hkind : Skipped.opening (0x22 :: bs) =
      Skipped.stringBody (bs.length + 1) bs >>= fun taken => .ok (none, taken.2) := rfl
  rw [hkind, hskip]
  rfl

theorem ne_of_isDigit {c : UInt8} (hb : isDigit b = true) (hc : isDigit c = false) : b ≠ c := by
  rintro rfl
  rw [hb] at hc
  cases hc

theorem Number.read_digit (hdigit : isDigit b = true) (bs : Bytes) :
    read (b :: bs) = unsigned true (b :: bs) := by
  unfold read
  split
  next heq => exact absurd (List.cons.inj heq).1 (ne_of_isDigit hdigit rfl)
  · rfl

theorem opening_number {n : Number} (hb : b = 0x2D ∨ isDigit b = true)
    (h : Number.read (b :: bs) = .ok (n, rest)) : Skipped.opening (b :: bs) = .ok (none, rest) := by
  rcases hb with rfl | hdigit
  · have hkind : Skipped.opening (0x2D :: bs) =
        Skipped.number bs >>= fun rest => .ok (none, rest) := rfl
    rw [hkind, Number.skip_unsigned h]
    rfl
  · have hother : ∀ c, isDigit c = false → b ≠ c := fun c => ne_of_isDigit hdigit
    rw [Number.read_digit hdigit] at h
    simp only [Skipped.opening, if_neg (hother 0x6E rfl), if_neg (hother 0x74 rfl),
      if_neg (hother 0x66 rfl), if_neg (hother 0x2D rfl), if_pos hdigit, Number.skip_unsigned h]
    rfl

theorem reaches_of_opening (h : Skipped.opening (skipBlanks bs) = .ok (none, rest)) :
    Reaches step (.due [] bs) (.ended [] rest) := by
  refine .single ?_
  simp only [step, h]
  rfl

theorem reaches_skipBlanks (h : Reaches step (.due [] (skipBlanks bs)) (.ended [] rest)) :
    Reaches step (.due [] bs) (.ended [] rest) := by
  obtain heq | ⟨s, hstep, hrun⟩ := Relation.ReflTransGen.cases_head h
  · cases heq
  · have hsame : step (.due [] (skipBlanks bs)) = step (.due [] bs) := by
      simp only [step, skipBlanks_skipBlanks]
    rw [hsame] at hstep
    exact .head hstep hrun

/-! ## Inside brackets -/

/-- The state inside a bracket that nothing surrounds. -/
def inside (bracket : Skipped.Bracket) (isFirst : Bool) (rest : Bytes) : State :=
  Skipped.beforeClosing (!isFirst) bracket [] rest

theorem reaches_inside {bracket : Skipped.Bracket}
    (hstep : step (inside bracket isFirst bs) = some (.due [bracket] r))
    (hvalue : Reaches step (.due [] r) (.ended [] rest)) :
    Reaches step (inside bracket isFirst bs) (inside bracket false rest) :=
  .head hstep (reaches_under hvalue [bracket])

theorem step_closer {bracket : Skipped.Bracket} (isFirst : Bool)
    (h : skipBlanks bs = closer bracket :: rest) :
    step (inside bracket isFirst bs) = some (.ended [] rest) := by
  cases isFirst <;> simp [inside, Skipped.beforeClosing, step, h]

theorem step_nextItem (h : nextItem isFirst bs = .ok (true, r)) :
    step (inside .list isFirst bs) = some (.due [.list] r) := by
  unfold nextItem at h
  split at h
  · cases h
  next b tail hbs =>
    split_ifs at h with hclose hfirst hcomma
    · cases h
    · cases h
      simp only [inside, Skipped.beforeClosing, hfirst, Bool.not_true, Bool.false_eq_true, if_false, step,
        hbs, closer, if_neg hclose, enter, skipBlanks_of_eq hbs]
    · subst hcomma
      have hlater : isFirst = false := Bool.eq_false_iff.mpr hfirst
      have hitem : skipBlanks tail = r := by
        split at h
        · cases h
        next htail =>
          split_ifs at h
          · cases h
          · cases h
            exact htail
      simp only [inside, Skipped.beforeClosing, hlater, Bool.not_false, if_true, step, hbs,
        if_neg (Skipped.comma_ne_closer _), enter, hitem]
    · cases h

theorem of_nextItem_false (h : nextItem isFirst bs = .ok (false, r)) :
    ∃ rest, skipBlanks bs = 0x5D :: rest ∧ r = 0x5D :: rest := by
  unfold nextItem at h
  split at h
  · cases h
  next b tail hbs =>
    split_ifs at h with hclose hfirst hcomma
    · cases h
      subst hclose
      exact ⟨tail, hbs, rfl⟩
    · cases h
    · split at h
      · cases h
      · split_ifs at h
        · cases h
        · cases h
    · cases h

theorem colon_eq_ok {u : Unit} (h : colon bs = .ok (u, rest)) : skipBlanks bs = 0x3A :: rest := by
  unfold colon at h
  split at h
  · cases h
  next b tail hbs =>
    split_ifs at h with hb
    · cases h
      rw [hbs, hb]
    · cases h

/-- The colon after a key, when a member is skipped. -/
def Skipped.colon (rest : Bytes) : Except Fault Bytes :=
  match skipBlanks rest with
  | [] => faultPast .endInObject []
  | b :: rest => if b = 0x3A then return rest else faultPast .expectedColon (b :: rest)

theorem key_of_stringBody {key : String} {u : Unit} (hkey : stringBody bs = .ok (key, r))
    (hcolon : colon r = .ok (u, rest)) : Skipped.key (0x22 :: bs) = .ok rest := by
  have hkind : Skipped.key (0x22 :: bs) =
      Skipped.stringBody (bs.length + 1) bs >>= fun taken => Skipped.colon taken.2 := rfl
  rw [hkind, skip_stringBody hkey]
  change Skipped.colon r = .ok rest
  simp only [Skipped.colon, colon_eq_ok hcolon, if_true]
  rfl

theorem step_nextMember {key : String} {u : Unit} {r₁ : Bytes}
    (h : nextMember isFirst bs = .ok (true, r)) (hkey : stringBody (r.drop 1) = .ok (key, r₁))
    (hcolon : colon r₁ = .ok (u, rest)) :
    step (inside .object isFirst bs) = some (.due [.object] rest) := by
  have henter : ∀ tail, r = 0x22 :: tail → ∀ bs', skipBlanks bs' = r →
      enter .object [] bs' = some (.due [.object] rest) := by
    rintro tail rfl bs' hbs'
    have hsame : Skipped.key bs' = Skipped.key (0x22 :: tail) := by
      unfold Skipped.key
      rw [skipBlanks_of_eq hbs', hbs']
    rw [List.drop_succ_cons, List.drop_zero] at hkey
    rw [enter, hsame, key_of_stringBody hkey hcolon]
    rfl
  unfold nextMember at h
  split at h
  · cases h
  next b tail hbs =>
    split_ifs at h with hclose hfirst hquote hcomma
    · cases h
    · cases h
      subst hquote
      simp only [inside, Skipped.beforeClosing, hfirst, Bool.not_true, Bool.false_eq_true, if_false, step,
        hbs, closer, if_neg hclose, henter tail rfl _ (skipBlanks_of_eq hbs)]
    · cases h
    · subst hcomma
      have hlater : isFirst = false := Bool.eq_false_iff.mpr hfirst
      obtain ⟨tail', htail, hr⟩ : ∃ tail', skipBlanks tail = r ∧ r = 0x22 :: tail' := by
        split at h
        · cases h
        next b' tail' htail =>
          split_ifs at h with hquote
          · cases h
            exact ⟨tail', htail, by rw [hquote]⟩
          · cases h
          · cases h
      simp only [inside, Skipped.beforeClosing, hlater, Bool.not_false, if_true, step, hbs,
        if_neg (Skipped.comma_ne_closer _), henter tail' hr _ htail]
    · cases h

theorem of_nextMember_false (h : nextMember isFirst bs = .ok (false, r)) :
    ∃ rest, skipBlanks bs = 0x7D :: rest ∧ r = 0x7D :: rest := by
  unfold nextMember at h
  split at h
  · cases h
  next b tail hbs =>
    split_ifs at h with hclose hfirst hquote hcomma
    · cases h
      subst hclose
      exact ⟨tail, hbs, rfl⟩
    · cases h
    · cases h
    · split at h
      · cases h
      · split_ifs at h
        · cases h
        · cases h
        · cases h
    · cases h

/-! ## Values -/

theorem reaches_items {item : Reader α} (hitem : TakesValue item) {fuel : Nat} {xs : List α}
    (h : items item fuel isFirst bs = .ok (xs, r)) :
    ∃ rest, r = 0x5D :: rest ∧ Reaches step (inside .list isFirst bs) (.ended [] rest) := by
  induction fuel generalizing isFirst bs xs with
  | zero => cases h
  | succ fuel ih =>
    obtain ⟨⟨more, r₁⟩, hnext, h⟩ := bind_eq_ok.mp h
    cases more with
    | false =>
      cases h
      obtain ⟨rest, hbs, rfl⟩ := of_nextItem_false hnext
      exact ⟨rest, rfl, .single (step_closer isFirst hbs)⟩
    | true =>
      obtain ⟨⟨x, r₂⟩, hx, h⟩ := bind_eq_ok.mp h
      obtain ⟨⟨tail, r₃⟩, htail, h⟩ := bind_eq_ok.mp h
      cases h
      obtain ⟨rest, hr, hrun⟩ := ih htail
      exact ⟨rest, hr, (reaches_inside (step_nextItem hnext) (hitem _ _ _ hx)).trans hrun⟩

theorem reaches_members {value : Reader α} (hvalue : TakesValue value) {fuel : Nat}
    {xs : List (String × α)} (h : members value fuel isFirst bs = .ok (xs, r)) :
    ∃ rest, r = 0x7D :: rest ∧ Reaches step (inside .object isFirst bs) (.ended [] rest) := by
  induction fuel generalizing isFirst bs xs with
  | zero => cases h
  | succ fuel ih =>
    obtain ⟨⟨more, r₁⟩, hnext, h⟩ := bind_eq_ok.mp h
    cases more with
    | false =>
      cases h
      obtain ⟨rest, hbs, rfl⟩ := of_nextMember_false hnext
      exact ⟨rest, rfl, .single (step_closer isFirst hbs)⟩
    | true =>
      obtain ⟨⟨key, r₂⟩, hkey, h⟩ := bind_eq_ok.mp h
      obtain ⟨⟨u, r₃⟩, hcolon, h⟩ := bind_eq_ok.mp h
      obtain ⟨⟨x, r₄⟩, hx, h⟩ := bind_eq_ok.mp h
      obtain ⟨⟨tail, r₅⟩, htail, h⟩ := bind_eq_ok.mp h
      cases h
      obtain ⟨rest, hr, hrun⟩ := ih htail
      exact ⟨rest, hr,
        (reaches_inside (step_nextMember hnext hkey hcolon) (hvalue _ _ _ hx)).trans hrun⟩

theorem reaches_of_bracket {bracket : Skipped.Bracket}
    (hopening : Skipped.opening (skipBlanks bs) = .ok (some bracket, r))
    (hrun : Reaches step (inside bracket true r) (.ended [] rest)) :
    Reaches step (.due [] bs) (.ended [] rest) := by
  refine .head ?_ hrun
  simp only [step, hopening]
  rfl

theorem reaches_listBody {item : Reader α} (hitem : TakesValue item) {xs : List α}
    (hbs : skipBlanks bs = 0x5B :: r) (h : listBody item r = .ok (xs, rest)) :
    Reaches step (.due [] bs) (.ended [] rest) := by
  obtain ⟨⟨xs', r₁⟩, hitems, h⟩ := bind_eq_ok.mp h
  cases h
  obtain ⟨rest, rfl, hrun⟩ := reaches_items hitem hitems
  exact reaches_of_bracket (by rw [hbs]; rfl) hrun

namespace Value

variable {depth : Nat} {v : Value}

/-- How a value stands in a text: its first byte is `b`, followed by `r`, of which `rest` comes after the
value. -/
def Stands (depth : Nat) (b : UInt8) (r rest : Bytes) : Value → Prop
  | null => b = 0x6E ∧ word [0x75, 0x6C, 0x6C] r = .ok ((), rest)
  | bool true => b = 0x74 ∧ word [0x72, 0x75, 0x65] r = .ok ((), rest)
  | bool false => b = 0x66 ∧ word [0x61, 0x6C, 0x73, 0x65] r = .ok ((), rest)
  | number n => (b = 0x2D ∨ isDigit b = true) ∧ Number.read (b :: r) = .ok (n, rest)
  | string s => b = 0x22 ∧ stringBody r = .ok (s, rest)
  | list vs => b = 0x5B ∧ ∃ inner, depth = inner + 1 ∧ listBody (read inner) r = .ok (vs, rest)
  | object ms => b = 0x7B ∧ ∃ inner r', depth = inner + 1 ∧
      members (read inner) (r.length + 1) true r = .ok (ms, r') ∧ rest = r'.drop 1

/-- A value stands in the text, or it is left to the reader of what brackets hold. -/
theorem simple_eq_ok {nested : UInt8 → Reader Value} (depth : Nat)
    (h : simple nested bs = .ok (v, rest)) :
    ∃ b r, skipBlanks bs = b :: r ∧
      (v.Stands depth b r rest ∨ ((b = 0x5B ∨ b = 0x7B) ∧ nested b r = .ok (v, rest))) := by
  unfold simple at h
  split at h
  · cases h
  next b r hbs =>
    refine ⟨b, r, hbs, ?_⟩
    split_ifs at h with hnull htrue hfalse hnumber hquote hbracket
    · obtain ⟨⟨u, r⟩, hword, h⟩ := bind_eq_ok.mp h
      cases h
      exact .inl ⟨hnull, hword⟩
    · obtain ⟨⟨u, r⟩, hword, h⟩ := bind_eq_ok.mp h
      cases h
      exact .inl ⟨htrue, hword⟩
    · obtain ⟨⟨u, r⟩, hword, h⟩ := bind_eq_ok.mp h
      cases h
      exact .inl ⟨hfalse, hword⟩
    · obtain ⟨⟨n, r⟩, hread, h⟩ := bind_eq_ok.mp h
      cases h
      exact .inl ⟨hnumber, hread⟩
    · obtain ⟨⟨s, r⟩, hbody, h⟩ := bind_eq_ok.mp h
      cases h
      exact .inl ⟨hquote, hbody⟩
    · exact .inr ⟨hbracket, h⟩
    · cases h

/-- A value that is read stands in the text. -/
theorem stands_of_read (h : read depth bs = .ok (v, rest)) :
    ∃ b r, skipBlanks bs = b :: r ∧ v.Stands depth b r rest := by
  cases depth with
  | zero =>
    obtain ⟨b, r, hbs, hv | ⟨-, h⟩⟩ := simple_eq_ok 0 h
    · exact ⟨b, r, hbs, hv⟩
    · cases h
  | succ depth =>
    obtain ⟨b, r, hbs, hv | ⟨hb, h⟩⟩ := simple_eq_ok (depth + 1) h
    · exact ⟨b, r, hbs, hv⟩
    · refine ⟨b, r, hbs, ?_⟩
      split_ifs at h with hlist
      · obtain ⟨⟨vs, r₁⟩, hbody, h⟩ := bind_eq_ok.mp h
        cases h
        exact ⟨hlist, depth, rfl, hbody⟩
      · obtain ⟨⟨ms, r₁⟩, hmembers, h⟩ := bind_eq_ok.mp h
        cases h
        exact ⟨hb.resolve_left hlist, depth, r₁, rfl, hmembers, rfl⟩

theorem opening_bool {value : Bool} (h : (bool value).Stands depth b r rest) :
    Skipped.opening (b :: r) = .ok (none, rest) := by
  cases value with
  | true =>
    obtain ⟨rfl, hword⟩ := h
    have hkind : Skipped.opening (0x74 :: r) =
        word [0x72, 0x75, 0x65] r >>= fun taken => .ok (none, taken.2) := rfl
    rw [hkind, hword]
    rfl
  | false =>
    obtain ⟨rfl, hword⟩ := h
    have hkind : Skipped.opening (0x66 :: r) =
        word [0x61, 0x6C, 0x73, 0x65] r >>= fun taken => .ok (none, taken.2) := rfl
    rw [hkind, hword]
    rfl

/-- A value that stands in the text is the outline of one if the values inside it are. -/
theorem reaches_of_stands (hbs : skipBlanks bs = b :: r) (hv : v.Stands depth b r rest)
    (hinner : ∀ inner, depth = inner + 1 → TakesValue (read inner)) :
    Reaches step (.due [] bs) (.ended [] rest) := by
  cases v with
  | null => exact reaches_of_opening (by rw [hbs, hv.1, opening_null hv.2])
  | bool value => exact reaches_of_opening (by rw [hbs, opening_bool hv])
  | number n => exact reaches_of_opening (by rw [hbs, opening_number hv.1 hv.2])
  | string s => exact reaches_of_opening (by rw [hbs, hv.1, opening_string hv.2])
  | list vs =>
    obtain ⟨rfl, inner, hdepth, hbody⟩ := hv
    exact reaches_listBody (hinner inner hdepth) hbs hbody
  | object ms =>
    obtain ⟨rfl, inner, r₁, hdepth, hmembers, rfl⟩ := hv
    obtain ⟨rest, rfl, hrun⟩ := reaches_members (hinner inner hdepth) hmembers
    exact reaches_of_bracket (by rw [hbs]; rfl) hrun

theorem takesValue_read (depth : Nat) : TakesValue (read depth) := by
  induction depth with
  | zero =>
    intro bs v rest h
    obtain ⟨b, r, hbs, hv⟩ := stands_of_read h
    exact reaches_of_stands hbs hv fun inner hdepth => nomatch hdepth
  | succ depth ih =>
    intro bs v rest h
    obtain ⟨b, r, hbs, hv⟩ := stands_of_read h
    refine reaches_of_stands hbs hv fun inner hdepth => ?_
    cases hdepth
    exact ih

theorem read_string {s : String} (h : read depth bs = .ok (.string s, rest)) :
    ∃ r, skipBlanks bs = 0x22 :: r ∧ stringBody r = .ok (s, rest) := by
  obtain ⟨b, r, hbs, rfl, hbody⟩ := stands_of_read h
  exact ⟨r, hbs, hbody⟩

theorem read_object {ms : List (String × Value)} (h : read depth bs = .ok (.object ms, rest)) :
    ∃ inner r r', skipBlanks bs = 0x7B :: r ∧
      members (read inner) (r.length + 1) true r = .ok (ms, r') := by
  obtain ⟨b, r, hbs, rfl, inner, r', -, hmembers, -⟩ := stands_of_read h
  exact ⟨inner, r, r', hbs, hmembers⟩

end Value

end KeyCustody.Json
