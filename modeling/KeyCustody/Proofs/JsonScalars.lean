import KeyCustody.Proofs.JsonOutline
/-! # Strings and numbers of JSON

A string or a number that is read ends where skipping ends it. Its value plays no part in that: escapes
have the same length for a reader as for one who skips them, and digits that no longer fit into a number
are passed over by both. -/

namespace KeyCustody.Json

open StateTransition Outline

variable {α : Type} {x : α} {bs r rest : Bytes}

/-! ## Strings -/

theorem length_hexUnit {n : Nat} (h : hexUnit bs = .ok (n, rest)) : bs.length = rest.length + 4 := by
  unfold hexUnit at h
  split at h
  · split at h
    · cases h
      rfl
    · cases h
  · cases h

theorem skip_unit {n fuel : Nat} (h : hexUnit bs = .ok (n, rest)) :
    Skipped.stringBody (fuel + 1) (0x5C :: 0x75 :: bs) = Skipped.stringBody fuel rest := by
  simp [Skipped.stringBody, h, bind, Except.bind]

/-- The second unit of a character is an escape of its own. -/
theorem skip_lowUnit {high n fuel : Nat} (h : lowUnit high bs = .ok (n, rest)) :
    rest.length + 6 = bs.length ∧
      Skipped.stringBody (fuel + 1) bs = Skipped.stringBody fuel rest := by
  match bs with
  | [] => cases h
  | [b] =>
    simp only [lowUnit] at h
    split_ifs at h
    · cases h
    · cases h
  | b :: c :: bs =>
    simp only [lowUnit] at h
    split_ifs at h with hslash hunit
    · cases h
    · cases h
    · rw [not_not] at hslash hunit
      subst hslash hunit
      obtain ⟨⟨low, r⟩, hlow, h⟩ := bind_eq_ok.mp h
      simp only at h
      split_ifs at h
      · cases h
        rw [skip_unit hlow, List.length_cons, List.length_cons, length_hexUnit hlow]
        exact ⟨rfl, rfl⟩
      · cases h

theorem skip_escape {b : Bytes} {fuel : Nat} (h : escape bs = .ok (b, rest))
    (hfuel : bs.length < fuel) :
    ∃ fuel', rest.length < fuel' ∧
      Skipped.stringBody (fuel + 1) (0x5C :: bs) = Skipped.stringBody fuel' rest := by
  cases bs with
  | nil => cases h
  | cons c bs =>
    rw [List.length_cons] at hfuel
    rw [escape] at h
    split_ifs at h with hunit
    · subst hunit
      obtain ⟨⟨n, r⟩, hescape, h⟩ := bind_eq_ok.mp h
      cases h
      obtain ⟨⟨high, r₁⟩, hhigh, hescape⟩ := bind_eq_ok.mp hescape
      have hlength := length_hexUnit hhigh
      simp only at hescape
      split_ifs at hescape with hlone hpair
      · cases hescape
      · obtain ⟨m, rfl⟩ : ∃ m, fuel = m + 1 := ⟨fuel - 1, by omega⟩
        obtain ⟨hlow, hskip⟩ : rest.length + 6 = r₁.length ∧
            Skipped.stringBody (m + 1) r₁ = Skipped.stringBody m rest := skip_lowUnit hescape
        exact ⟨m, by omega, (skip_unit hhigh).trans hskip⟩
      · cases hescape
        exact ⟨fuel, by omega, skip_unit hhigh⟩
    · split at h
      next y hletter =>
        cases h
        refine ⟨fuel, by omega, ?_⟩
        simp [Skipped.stringBody, hunit, hletter]
      next => cases h

theorem skip_stringBytes {b : Bytes} {fuel fuel' : Nat} (h : stringBytes fuel bs = .ok (b, rest))
    (hfuel : bs.length < fuel') : Skipped.stringBody fuel' bs = .ok ((), rest) := by
  induction fuel generalizing bs b fuel' with
  | zero => cases h
  | succ fuel ih =>
    obtain ⟨n, rfl⟩ : ∃ n, fuel' = n + 1 := ⟨fuel' - 1, by omega⟩
    cases bs with
    | nil => cases h
    | cons c bs =>
      rw [List.length_cons] at hfuel
      rw [stringBytes] at h
      split_ifs at h with hquote hslash hcontrol
      · cases h
        simp [Skipped.stringBody, hquote]
      · subst hslash
        obtain ⟨⟨e, r⟩, hescape, h⟩ := bind_eq_ok.mp h
        obtain ⟨⟨tail, r'⟩, htail, h⟩ := bind_eq_ok.mp h
        cases h
        obtain ⟨k, hk, hskip⟩ := skip_escape hescape (Nat.lt_of_succ_lt_succ hfuel)
        rw [hskip, ih htail hk]
      · cases h
      · obtain ⟨⟨tail, r'⟩, htail, h⟩ := bind_eq_ok.mp h
        cases h
        simp only [Skipped.stringBody, if_neg hquote, if_neg hslash, if_neg hcontrol]
        exact ih htail (by omega)

theorem skip_stringBody {s : String} (h : stringBody bs = .ok (s, rest)) :
    Skipped.stringBody (bs.length + 1) bs = .ok ((), rest) := by
  obtain ⟨⟨b, r⟩, hbytes, h⟩ := bind_eq_ok.mp h
  simp only at h
  split at h
  · cases h
    exact skip_stringBytes hbytes (Nat.lt_succ_self _)
  · cases h

/-! ## Numbers -/

def Skipped.unsignedExponent : Bytes → Except Fault Bytes
  | [] => faultAt .invalidNumber []
  | b :: rest => if isDigit b then .ok (rest.dropWhile isDigit) else faultAt .invalidNumber rest

theorem Skipped.exponent_unsigned (hplus : ∀ tail, bs ≠ 0x2B :: tail) (hminus : ∀ tail, bs ≠ 0x2D :: tail) :
    Skipped.exponent bs = Skipped.unsignedExponent bs := by
  unfold Skipped.exponent
  split
  · exact absurd rfl (hplus _)
  · exact absurd rfl (hminus _)
  · rfl

namespace Number

variable {n : Number} {positive positivePower isFirst : Bool} {significand power : Nat} {exponent : Int}

theorem rest_of_scaled (h : scaled positive significand exponent bs = .ok (n, rest)) : rest = bs := by
  unfold scaled at h
  split at h
  · cases h
    rfl
  · cases h

theorem rest_of_exponentDigits
    (h : exponentDigits positive significand exponent positivePower power bs = .ok (n, rest)) :
    rest = bs.dropWhile isDigit := by
  induction bs generalizing power with
  | nil => exact rest_of_scaled h
  | cons b bs ih =>
    by_cases hdigit : isDigit b = true
    · rw [List.dropWhile_cons_of_pos hdigit]
      simp only [exponentDigits, if_pos hdigit] at h
      split_ifs at h
      · exact ih h
      · cases h
      · cases h
        rfl
    · rw [List.dropWhile_cons_of_neg hdigit]
      simp only [exponentDigits, if_neg hdigit] at h
      exact rest_of_scaled h

def unsignedExponent (positive : Bool) (significand : Nat) (exponent : Int) (positivePower : Bool) :
    Reader Number
  | [] => faultAt .endInValue []
  | b :: rest =>
    if isDigit b then exponentDigits positive significand exponent positivePower (digitValue b) rest
    else faultAt .invalidNumber rest

theorem skip_unsignedExponent
    (h : unsignedExponent positive significand exponent positivePower bs = .ok (n, rest)) :
    Skipped.unsignedExponent bs = .ok rest := by
  cases bs with
  | nil => cases h
  | cons b bs =>
    rw [unsignedExponent] at h
    split_ifs at h with hdigit
    · rw [Skipped.unsignedExponent, if_pos hdigit, rest_of_exponentDigits h]
    · cases h

theorem skip_afterExponentMark
    (h : afterExponentMark positive significand exponent bs = .ok (n, rest)) :
    Skipped.exponent bs = .ok rest := by
  unfold afterExponentMark at h
  split at h
  next positivePower bs' hsign =>
    have hskip : Skipped.unsignedExponent bs' = .ok rest := skip_unsignedExponent h
    split at hsign
    · cases hsign
      exact hskip
    · cases hsign
      exact hskip
    next hplus hminus =>
      cases hsign
      exact (Skipped.exponent_unsigned hplus hminus).trans hskip

theorem skip_noExponent (hlower : ∀ tail, bs ≠ 0x65 :: tail) (hupper : ∀ tail, bs ≠ 0x45 :: tail) :
    Skipped.exponentPart bs = .ok bs := by
  unfold Skipped.exponentPart
  split
  · exact absurd rfl (hlower _)
  · exact absurd rfl (hupper _)
  · rfl

theorem skip_noFraction (hpoint : ∀ tail, bs ≠ 0x2E :: tail) :
    Skipped.fractionPart bs = Skipped.exponentPart bs := by
  unfold Skipped.fractionPart
  split
  · exact absurd rfl (hpoint _)
  · rfl

theorem skip_exponentPart (h : exponentPart positive significand exponent bs = .ok (n, rest)) :
    Skipped.exponentPart bs = .ok rest := by
  unfold exponentPart at h
  split at h
  · exact skip_afterExponentMark h
  · exact skip_afterExponentMark h
  next hlower hupper =>
    rw [rest_of_scaled h]
    exact skip_noExponent hlower hupper

theorem skip_fraction (h : fraction positive significand exponent isFirst bs = .ok (n, rest)) :
    (isFirst = true → ∃ b tail, bs = b :: tail ∧ isDigit b = true) ∧
      Skipped.exponentPart (bs.dropWhile isDigit) = .ok rest := by
  induction bs generalizing significand exponent isFirst with
  | nil =>
    simp only [fraction] at h
    split_ifs at h with hfirst
    · cases h
    · exact ⟨fun hfirst' => absurd hfirst' hfirst, skip_exponentPart h⟩
  | cons b bs ih =>
    by_cases hdigit : isDigit b = true
    · refine ⟨fun _ => ⟨b, bs, rfl, hdigit⟩, ?_⟩
      rw [List.dropWhile_cons_of_pos hdigit]
      simp only [fraction, if_pos hdigit] at h
      split_ifs at h
      · exact (ih h).2
      · exact skip_exponentPart h
    · rw [List.dropWhile_cons_of_neg hdigit]
      simp only [fraction, if_neg hdigit] at h
      split_ifs at h with hfirst
      · cases h
      · exact ⟨fun hfirst' => absurd hfirst' hfirst, skip_exponentPart h⟩

theorem skip_fractionPart {count : Nat} (h : fractionPart positive significand count bs = .ok (n, rest)) :
    Skipped.fractionPart bs = .ok rest := by
  unfold fractionPart at h
  split at h
  · obtain ⟨hfirst, hskip⟩ := skip_fraction h
    obtain ⟨b, tail, rfl, hdigit⟩ := hfirst rfl
    exact (if_pos hdigit).trans hskip
  next hpoint => exact (skip_noFraction hpoint).trans (skip_exponentPart h)

theorem skip_longInteger {count : Nat} (h : longInteger positive significand count bs = .ok (n, rest)) :
    Skipped.fractionPart (bs.dropWhile isDigit) = .ok rest := by
  induction bs generalizing count with
  | nil => exact skip_fractionPart h
  | cons b bs ih =>
    by_cases hdigit : isDigit b = true
    · rw [List.dropWhile_cons_of_pos hdigit]
      simp only [longInteger, if_pos hdigit] at h
      exact ih h
    · rw [List.dropWhile_cons_of_neg hdigit]
      simp only [longInteger, if_neg hdigit] at h
      exact skip_fractionPart h

theorem skip_wholeNumber (h : wholeNumber positive significand bs = .ok (n, rest)) :
    Skipped.fractionPart bs = .ok rest := by
  unfold wholeNumber at h
  split at h
  · exact skip_fractionPart h
  · exact skip_exponentPart h
  · exact skip_exponentPart h
  next hpoint hlower hupper =>
    have hrest : rest = bs := by
      split_ifs at h
      · cases h
        rfl
      · cases h
        rfl
      · cases h
        rfl
    rw [hrest, skip_noFraction hpoint]
    exact skip_noExponent hlower hupper

theorem skip_integerDigits (h : integerDigits positive significand bs = .ok (n, rest)) :
    Skipped.fractionPart (bs.dropWhile isDigit) = .ok rest := by
  induction bs generalizing significand with
  | nil => exact skip_wholeNumber h
  | cons b bs ih =>
    by_cases hdigit : isDigit b = true
    · simp only [integerDigits, if_pos hdigit] at h
      split_ifs at h
      · rw [List.dropWhile_cons_of_pos hdigit]
        exact ih h
      · exact skip_longInteger h
    · rw [List.dropWhile_cons_of_neg hdigit]
      simp only [integerDigits, if_neg hdigit] at h
      exact skip_wholeNumber h

theorem skip_unsigned (h : unsigned positive bs = .ok (n, rest)) : Skipped.number bs = .ok rest := by
  unfold unsigned at h
  split at h
  · cases h
  next tail =>
    cases tail with
    | nil => exact skip_wholeNumber h
    | cons b tail =>
      simp only at h
      split_ifs at h with hdigit
      · cases h
      · exact (if_neg hdigit).trans (skip_wholeNumber h)
  next b tail hzero =>
    split_ifs at h with hdigit
    · unfold Skipped.number
      split
      next heq => cases heq
      next heq =>
        cases heq
        exact absurd rfl hzero
      next heq =>
        cases heq
        rw [if_pos hdigit]
        exact skip_integerDigits h
    · cases h

end Number

end KeyCustody.Json
