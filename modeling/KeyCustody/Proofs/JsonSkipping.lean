import KeyCustody.Proofs.JsonHyphens
import KeyCustody.Proofs.JsonRecord
/-! # What can be read can be skipped

Skipping a value comes to its end wherever the outline of the value does: each value that is opened takes
at least one byte off the text, so that the rounds of skipping never run out. Hence a member that some
reader could take is skipped where nobody asks for it. -/

namespace KeyCustody.Json

open StateTransition Outline

variable {α : Type} {x : α} {bs r rest : Bytes}

theorem length_skipBlanks_le (bs : Bytes) : (skipBlanks bs).length ≤ bs.length :=
  (List.dropWhile_suffix isBlank).length_le

theorem length_lt_of_skipBlanks {b : UInt8} (h : skipBlanks bs = b :: rest) : rest.length < bs.length := by
  have hle := length_skipBlanks_le bs
  rw [h, List.length_cons] at hle
  exact hle

theorem Passed.length_le (h : Passed bs rest) : rest.length ≤ bs.length := by
  obtain ⟨taken, -, rfl⟩ := h
  rw [List.length_append]
  omega

namespace Skipped

variable {fuel fuel' : Nat} {bracket : Bracket} {outer : List Bracket} {s s' : State}

theorem length_of_opening {opened : Option Bracket} (h : opening bs = .ok (opened, rest)) :
    rest.length < bs.length := by
  cases bs with
  | nil => cases h
  | cons b bs =>
    obtain ⟨-, hfollows⟩ | ⟨-, hpassed⟩ := opening_cons h
    · exact Nat.lt_succ_of_le hfollows.passed.length_le
    · exact Nat.lt_succ_of_le hpassed.length_le

/-- What skipping does from a place on where brackets may be closed. -/
def goOn (fuel fuel' : Nat) (afterValue : Bool) (inner : Bracket) (outer : List Bracket) (bs : Bytes) :
    Except Fault Bytes :=
  closing fuel afterValue inner outer bs >>= fun next => resume fuel' next.1 next.2

/-- Skipping comes from a state to the end if it has more rounds than there are bytes. -/
def Finishes (rest : Bytes) : State → Prop
  | .due brackets bs => ∀ fuel, bs.length < fuel → values fuel brackets bs = .ok rest
  | .opened bracket outer bs => ∀ fuel fuel', bs.length < fuel → bs.length < fuel' →
    goOn fuel fuel' false bracket outer bs = .ok rest
  | .ended [] bs => bs = rest
  | .ended (bracket :: outer) bs => ∀ fuel fuel', bs.length < fuel → bs.length < fuel' →
    goOn fuel fuel' true bracket outer bs = .ok rest

theorem afterOpening_finishes {brackets : List Bracket} (h : Finishes rest (.ended brackets bs))
    (hfuel : bs.length < fuel) :
    (afterOpening none brackets bs >>= fun next => resume fuel next.1 next.2) = .ok rest := by
  cases brackets with
  | nil => exact congrArg Except.ok h
  | cons bracket outer => exact h _ _ (Nat.lt_succ_self _) hfuel

theorem goOn_closer {b : UInt8} {afterValue : Bool} (hbs : skipBlanks bs = b :: r)
    (hclose : b = closer bracket) (h : Finishes rest (.ended outer r)) (hfuel : r.length < fuel)
    (hfuel' : r.length < fuel') : goOn (fuel + 1) fuel' afterValue bracket outer bs = .ok rest := by
  have hcomma : ¬ (b = 0x2C ∧ afterValue = true) := fun hb => comma_ne_closer bracket (hb.1 ▸ hclose)
  simp only [goOn, closing, closes_iff, hbs, if_neg hcomma, if_pos hclose]
  cases outer with
  | nil => exact congrArg Except.ok h
  | cons next outer => exact h _ _ hfuel hfuel'

theorem resume_enter (henter : enter bracket outer bs = some s) (h : Finishes rest s)
    (hfuel : bs.length < fuel) : resume fuel (some (bracket, outer)) bs = .ok rest := by
  cases bracket with
  | list =>
    cases henter
    obtain ⟨n, rfl⟩ : ∃ n, fuel = n + 1 := ⟨fuel - 1, by omega⟩
    have hdue := h (n + 1) (Nat.lt_of_le_of_lt (length_skipBlanks_le bs) hfuel)
    simp only [values_succ, skipBlanks_skipBlanks] at hdue
    rw [resume, values_succ]
    exact hdue
  | object =>
    obtain ⟨r, hkey, rfl⟩ := Option.map_eq_some_iff.mp henter
    cases hread : key bs with
    | error fault => rw [hread] at hkey; cases hkey
    | ok r' =>
      rw [hread] at hkey
      cases hkey
      rw [resume, hread]
      exact h fuel (Nat.lt_of_le_of_lt (key_passed hread).length_le hfuel)

/-- Each step is one round of skipping, or the part of a round that closes a bracket. -/
theorem finishes_of_step (hstep : step s = some s') (h : Finishes rest s') : Finishes rest s := by
  -- every step that uses up a round takes a byte off the text, so that enough rounds are left after it
  cases s with
  | due brackets bs =>
    intro fuel hfuel
    obtain ⟨n, rfl⟩ : ∃ n, fuel = n + 1 := ⟨fuel - 1, by omega⟩
    have hblanks := length_skipBlanks_le bs
    simp only [step] at hstep
    split at hstep
    next r hopening =>
      cases hstep
      have hshorter := length_of_opening hopening
      rw [values_succ, hopening]
      exact afterOpening_finishes h (show r.length < n by omega)
    next bracket r hopening =>
      cases hstep
      have hshorter := length_of_opening hopening
      rw [values_succ, hopening]
      exact h _ _ (Nat.lt_succ_self _) (by omega)
    next => cases hstep
  | opened bracket outer bs =>
    intro fuel fuel' hfuel hfuel'
    obtain ⟨n, rfl⟩ : ∃ n, fuel = n + 1 := ⟨fuel - 1, by omega⟩
    simp only [step] at hstep
    split at hstep
    · cases hstep
    next b r hbs =>
      have hshorter := length_lt_of_skipBlanks hbs
      split_ifs at hstep with hclose
      · cases hstep
        exact goOn_closer hbs hclose h (by omega) (by omega)
      · simp only [goOn, closing, closes_iff, hbs, Bool.false_eq_true, and_false, if_false, if_neg hclose]
        exact resume_enter hstep h (by rw [List.length_cons]; omega)
  | ended brackets bs =>
    cases brackets with
    | nil => cases hstep
    | cons bracket outer =>
      intro fuel fuel' hfuel hfuel'
      obtain ⟨n, rfl⟩ : ∃ n, fuel = n + 1 := ⟨fuel - 1, by omega⟩
      simp only [step] at hstep
      split at hstep
      · cases hstep
      next b r hbs =>
        have hshorter := length_lt_of_skipBlanks hbs
        split_ifs at hstep with hclose hcomma
        · cases hstep
          exact goOn_closer hbs hclose h (by omega) (by omega)
        · simp only [goOn, closing, hbs, if_pos (And.intro hcomma trivial)]
          exact resume_enter hstep h (show r.length < fuel' by omega)

/-- A run of the machine to its end is a way to skip. -/
theorem finishes_of_reaches (h : Reaches step s (.ended [] rest)) : Finishes rest s := by
  induction h using Relation.ReflTransGen.head_induction_on with
  | refl => rfl
  | head hstep _ ih => exact finishes_of_step hstep ih

/-- A value is skipped wherever its outline ends. -/
theorem value_eq_ok_iff : value bs = .ok ((), rest) ↔ Reaches step (.due [] bs) (.ended [] rest) := by
  refine ⟨takesValue_skipped bs () rest, fun h => ?_⟩
  have hvalues := finishes_of_reaches h (bs.length + 1) (Nat.lt_succ_self _)
  simp only [value, hvalues]
  rfl

end Skipped

/-- What a reader takes off a text as a value is skipped. -/
theorem TakesValue.skipped {reader : Reader α} (hreader : TakesValue reader)
    (h : reader bs = .ok (x, rest)) : Skipped.value bs = .ok ((), rest) :=
  Skipped.value_eq_ok_iff.mpr (hreader bs x rest h)

theorem Reads.skipped {reader : Reader α} {v : Value} (h : Reads reader v x)
    (hreader : TakesValue reader) : Reads Skipped.value v () :=
  fun rest => hreader.skipped (h rest)

end KeyCustody.Json
