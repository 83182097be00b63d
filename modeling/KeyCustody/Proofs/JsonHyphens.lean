import KeyCustody.Proofs.RecordReaders
/-! # Hyphens in JSON documents

A hyphen in a document is the sign of a number or of an exponent, and stands before a digit, or it belongs
to a string, in which control characters are escaped. So no line of a document ends in a hyphen. -/

namespace KeyCustody.Json

open StateTransition

variable {α : Type} {b : UInt8} {bs r rest : Bytes}

/-! ## Parts of a text -/

/-- Every hyphen has a byte after it that is no control character. -/
inductive Tidy : Bytes → Prop where
  | nil : Tidy []
  | cons {b : UInt8} {bs : Bytes} (hb : b ≠ 0x2D) (h : Tidy bs) : Tidy (b :: bs)
  | hyphen {b : UInt8} {bs : Bytes} (hb : ¬ b < 0x20) (h : Tidy (b :: bs)) : Tidy (0x2D :: b :: bs)

theorem Tidy.append {bs' : Bytes} (h : Tidy bs) (h' : Tidy bs') : Tidy (bs ++ bs') := by
  induction h with
  | nil => exact h'
  | cons hb _ ih => exact .cons hb ih
  | hyphen hb _ ih => exact .hyphen hb ih

theorem Tidy.of_append {before after : Bytes} (h : Tidy (before ++ 0x2D :: b :: after)) : ¬ b < 0x20 := by
  induction before with
  | nil =>
    cases h with
    | cons hb _ => exact absurd rfl hb
    | hyphen hb _ => exact hb
  | cons c before ih =>
    refine ih ?_
    rw [List.cons_append] at h
    generalize before ++ 0x2D :: b :: after = tail at h
    cases h with
    | cons _ h => exact h
    | hyphen _ h => exact h

/-- What has been taken off a text when some rest is left is tidy. -/
def Passed (bs rest : Bytes) : Prop := ∃ taken, Tidy taken ∧ taken ++ rest = bs

/-- What has been taken off a text is tidy, and may stand after a hyphen. -/
def Follows (bs rest : Bytes) : Prop :=
  ∃ b taken, ¬ b < 0x20 ∧ Tidy (b :: taken) ∧ b :: taken ++ rest = bs

namespace Passed

theorem refl (bs : Bytes) : Passed bs bs := ⟨[], .nil, rfl⟩

theorem trans (h : Passed bs r) (h' : Passed r rest) : Passed bs rest := by
  obtain ⟨taken, htaken, rfl⟩ := h
  obtain ⟨taken', htaken', rfl⟩ := h'
  exact ⟨taken ++ taken', htaken.append htaken', List.append_assoc _ _ _⟩

theorem cons (hb : b ≠ 0x2D) (h : Passed bs rest) : Passed (b :: bs) rest := by
  obtain ⟨taken, htaken, rfl⟩ := h
  exact ⟨b :: taken, .cons hb htaken, rfl⟩

theorem dropWhile {p : UInt8 → Bool} (hp : p 0x2D = false) (bs : Bytes) : Passed bs (bs.dropWhile p) := by
  induction bs with
  | nil => exact refl []
  | cons b bs ih =>
    by_cases hb : p b = true
    · rw [List.dropWhile_cons_of_pos hb]
      refine ih.cons ?_
      rintro rfl
      rw [hp] at hb
      cases hb
    · rw [List.dropWhile_cons_of_neg hb]
      exact refl _

theorem follows (hb : b ≠ 0x2D) (hlow : ¬ b < 0x20) (h : Passed bs rest) : Follows (b :: bs) rest := by
  obtain ⟨taken, htaken, rfl⟩ := h
  exact ⟨b, taken, hlow, .cons hb htaken, rfl⟩

theorem blanks (bs : Bytes) : Passed bs (skipBlanks bs) := dropWhile rfl bs

theorem digits (bs : Bytes) : Passed bs (bs.dropWhile isDigit) := dropWhile rfl bs

theorem afterBlanks (hb : b ≠ 0x2D) (h : skipBlanks bs = b :: rest) : Passed bs rest :=
  (blanks bs).trans (h ▸ (refl rest).cons hb)

end Passed

namespace Follows

theorem passed (h : Follows bs rest) : Passed bs rest := by
  obtain ⟨b, taken, -, htaken, heq⟩ := h
  exact ⟨b :: taken, htaken, heq⟩

theorem hyphen (h : Follows bs rest) : Follows (0x2D :: bs) rest := by
  obtain ⟨b, taken, hb, htaken, rfl⟩ := h
  exact ⟨0x2D, b :: taken, by decide, .hyphen hb htaken, rfl⟩

theorem tail (hb : b ≠ 0x2D) (h : Follows (b :: bs) rest) : Passed bs rest := by
  obtain ⟨c, taken, -, htaken, heq⟩ := h
  obtain ⟨rfl, rfl⟩ := List.cons.inj heq
  cases htaken with
  | cons _ htail => exact ⟨taken, htail, rfl⟩
  | hyphen _ _ => exact absurd rfl hb

theorem digit (hb : isDigit b = true) (h : Passed bs rest) : Follows (b :: bs) rest := by
  refine h.follows ?_ ?_
  · rintro rfl
    exact absurd hb (by decide)
  · intro hlow
    simp only [isDigit, Bool.and_eq_true, decide_eq_true_eq] at hb
    exact absurd (UInt8.lt_of_le_of_lt hb.1 hlow) (by decide)

end Follows

theorem word_passed {letters : Bytes} {u : Unit} (hletters : 0x2D ∉ letters)
    (h : word letters bs = .ok (u, rest)) : Passed bs rest := by
  induction letters generalizing bs with
  | nil =>
    cases h
    exact .refl _
  | cons letter letters ih =>
    rw [List.mem_cons, not_or] at hletters
    cases bs with
    | nil => cases h
    | cons b bs =>
      simp only [word] at h
      split_ifs at h with hb
      · subst hb
        exact (ih hletters.2 h).cons (Ne.symm hletters.1)
      · cases h

theorem hexUnit_passed {n : Nat} (h : hexUnit bs = .ok (n, rest)) : Passed bs rest := by
  unfold hexUnit at h
  split at h
  next a b c d tail =>
    split at h
    next m hunit =>
      cases h
      have hne : a ≠ 0x2D ∧ b ≠ 0x2D ∧ c ≠ 0x2D ∧ d ≠ 0x2D := by
        refine ⟨?_, ?_, ?_, ?_⟩
        all_goals
          rintro rfl
          simp [hexUnit?] at hunit
      exact .cons hne.1 (.cons hne.2.1 (.cons hne.2.2.1 (.cons hne.2.2.2 (.refl _))))
    · cases h
  next => cases h

namespace Skipped

/-- The text of a string, which has no control characters, may stand after a hyphen. -/
theorem stringBody_follows {fuel : Nat} {u : Unit} (h : stringBody fuel bs = .ok (u, rest)) :
    Follows bs rest := by
  induction fuel generalizing bs with
  | zero => cases h
  | succ fuel ih =>
    cases bs with
    | nil => cases h
    | cons b bs =>
      simp only [stringBody] at h
      split_ifs at h with hquote hescape hcontrol
      · cases h
        subst hquote
        exact (Passed.refl _).follows (by decide) (by decide)
      · subst hescape
        refine Passed.follows (by decide) (by decide) ?_
        cases bs with
        | nil => cases h
        | cons c bs =>
          simp only at h
          split_ifs at h with hunit hletter
          · obtain ⟨⟨n, r⟩, hread, h⟩ := bind_eq_ok.mp h
            exact .cons (hunit ▸ by decide) ((hexUnit_passed hread).trans (ih h).passed)
          · refine .cons ?_ (ih h).passed
            rintro rfl
            exact absurd hletter (by decide)
          · cases h
      · cases h
      · by_cases hb : b = 0x2D
        · exact hb ▸ (ih h).hyphen
        · exact (ih h).passed.follows hb hcontrol

theorem unsignedExponent_follows (h : unsignedExponent bs = .ok rest) : Follows bs rest := by
  cases bs with
  | nil => cases h
  | cons b bs =>
    rw [unsignedExponent] at h
    split_ifs at h with hb
    · cases h
      exact .digit hb (.digits bs)
    · cases h

theorem exponent_passed (h : exponent bs = .ok rest) : Passed bs rest := by
  unfold exponent at h
  split at h
  · exact (unsignedExponent_follows h).passed.cons (by decide)
  · exact (unsignedExponent_follows h).hyphen.passed
  · exact (unsignedExponent_follows h).passed

theorem exponentPart_passed (h : exponentPart bs = .ok rest) : Passed bs rest := by
  unfold exponentPart at h
  split at h
  · exact (exponent_passed h).cons (by decide)
  · exact (exponent_passed h).cons (by decide)
  · cases h
    exact .refl _

theorem fractionPart_passed (h : fractionPart bs = .ok rest) : Passed bs rest := by
  unfold fractionPart at h
  split at h
  next bs =>
    refine .cons (by decide) ?_
    cases bs with
    | nil => cases h
    | cons b bs =>
      simp only at h
      split_ifs at h
      · exact (Passed.digits _).trans (exponentPart_passed h)
      · cases h
  · exact exponentPart_passed h

theorem number_follows (h : number bs = .ok rest) : Follows bs rest := by
  unfold number at h
  split at h
  · cases h
  next bs =>
    refine .digit (by decide) ?_
    cases bs with
    | nil =>
      cases h
      exact .refl _
    | cons b bs =>
      simp only at h
      split_ifs at h
      · cases h
      · exact fractionPart_passed h
  next b bs _ =>
    split_ifs at h with hb
    · exact .digit hb ((Passed.digits bs).trans (fractionPart_passed h))
    · cases h

theorem opening_cons {opened : Option Bracket} (h : opening (b :: bs) = .ok (opened, rest)) :
    b = 0x2D ∧ Follows bs rest ∨ b ≠ 0x2D ∧ Passed bs rest := by
  simp only [opening] at h
  split_ifs at h with hnull htrue hfalse hsign hdigit hquote hlist hobject
  · obtain ⟨⟨u, r⟩, hword, h⟩ := bind_eq_ok.mp h
    cases h
    exact .inr ⟨hnull ▸ by decide, word_passed (by decide) hword⟩
  · obtain ⟨⟨u, r⟩, hword, h⟩ := bind_eq_ok.mp h
    cases h
    exact .inr ⟨htrue ▸ by decide, word_passed (by decide) hword⟩
  · obtain ⟨⟨u, r⟩, hword, h⟩ := bind_eq_ok.mp h
    cases h
    exact .inr ⟨hfalse ▸ by decide, word_passed (by decide) hword⟩
  · obtain ⟨r, hnumber, h⟩ := bind_eq_ok.mp h
    cases h
    exact .inl ⟨hsign, number_follows hnumber⟩
  · obtain ⟨r, hnumber, h⟩ := bind_eq_ok.mp h
    cases h
    exact .inr ⟨hsign, (number_follows hnumber).tail hsign⟩
  · obtain ⟨⟨u, r⟩, hbody, h⟩ := bind_eq_ok.mp h
    cases h
    exact .inr ⟨hquote ▸ by decide, (stringBody_follows hbody).passed⟩
  · cases h
    exact .inr ⟨hlist ▸ by decide, .refl _⟩
  · cases h
    exact .inr ⟨hobject ▸ by decide, .refl _⟩
  · cases h

theorem opening_passed {opened : Option Bracket} (h : opening bs = .ok (opened, rest)) :
    Passed bs rest := by
  cases bs with
  | nil => cases h
  | cons b bs =>
    obtain ⟨rfl, hfollows⟩ | ⟨hb, hpassed⟩ := opening_cons h
    · exact hfollows.hyphen.passed
    · exact hpassed.cons hb

theorem key_passed (h : key bs = .ok rest) : Passed bs rest := by
  unfold key at h
  split at h
  · cases h
  next b tail hbs =>
    split_ifs at h with hb
    · cases h
    · obtain ⟨⟨u, r⟩, hbody, h⟩ := bind_eq_ok.mp h
      refine (Passed.afterBlanks ?_ hbs).trans ((stringBody_follows hbody).passed.trans ?_)
      · rintro rfl
        exact hb (by decide)
      · simp only at h
        split at h
        · cases h
        next c tail' hr =>
          split_ifs at h with hcolon
          · cases h
            exact .afterBlanks (hcolon ▸ by decide) hr
          · cases h

end Skipped

/-! ## States -/

namespace Outline

/-- What is left of the text. -/
def State.left : State → Bytes
  | due _ rest => rest
  | opened _ _ rest => rest
  | ended _ rest => rest

theorem closer_ne_hyphen (bracket : Skipped.Bracket) : closer bracket ≠ 0x2D := by
  cases bracket <;> decide

theorem enter_passed {bracket : Skipped.Bracket} {outer : List Skipped.Bracket} {s : State}
    (h : enter bracket outer bs = some s) : Passed bs s.left := by
  cases bracket with
  | list =>
    cases h
    exact .blanks bs
  | object =>
    obtain ⟨r, hkey, rfl⟩ := Option.map_eq_some_iff.mp h
    cases hread : Skipped.key bs with
    | error fault => rw [hread] at hkey; cases hkey
    | ok r' =>
      rw [hread] at hkey
      cases hkey
      exact Skipped.key_passed hread

theorem step_passed {s s' : State} (h : step s = some s') : Passed s.left s'.left := by
  cases s with
  | due brackets bs =>
    simp only [step] at h
    split at h
    next hopening =>
      cases h
      exact (Passed.blanks bs).trans (Skipped.opening_passed hopening)
    next hopening =>
      cases h
      exact (Passed.blanks bs).trans (Skipped.opening_passed hopening)
    next => cases h
  | opened bracket outer bs =>
    simp only [step] at h
    split at h
    · cases h
    next b tail hbs =>
      split_ifs at h with hclose
      · cases h
        exact .afterBlanks (hclose ▸ closer_ne_hyphen bracket) hbs
      · have hpassed := enter_passed h
        rw [← hbs] at hpassed
        exact (Passed.blanks bs).trans hpassed
  | ended brackets bs =>
    cases brackets with
    | nil => cases h
    | cons bracket outer =>
      simp only [step] at h
      split at h
      · cases h
      next b tail hbs =>
        split_ifs at h with hclose hcomma
        · cases h
          exact .afterBlanks (hclose ▸ closer_ne_hyphen bracket) hbs
        · exact (Passed.afterBlanks (hcomma ▸ by decide) hbs).trans (enter_passed h)

/-- A run takes tidy bytes off the text. -/
theorem reaches_passed {s s' : State} (h : Reaches step s s') : Passed s.left s'.left := by
  induction h with
  | refl => exact .refl _
  | tail _ hstep ih => exact ih.trans (step_passed hstep)

end Outline

/-! ## Documents -/

/-- A text that is read as one value is tidy. -/
theorem TakesValue.tidy {reader : Reader α} {x : α} (hreader : TakesValue reader)
    (h : whole reader bs = .ok x) : Tidy bs := by
  obtain ⟨rest, hread, hblank⟩ := whole_eq_ok.mp h
  have hpassed : Passed bs (skipBlanks rest) :=
    (Outline.reaches_passed (hreader _ _ _ hread)).trans (.blanks rest)
  rw [hblank] at hpassed
  obtain ⟨taken, htaken, rfl⟩ := hpassed
  rwa [List.append_nil]

end KeyCustody.Json
