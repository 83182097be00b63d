import KeyCustody.Json.Skipped
import KeyCustody.Json.Value
import Mathlib.Computability.StateTransition
import Mathlib.Data.List.DropRight
/-! # Where a JSON value ends

One machine walks over the outline of a value: what is due next, inside which brackets. Skipping a value
is a run of this machine, and whatever is read as a value of any shape lies on such a run, so that both
readings of a text stop at the same place. -/

namespace KeyCustody.Json

open StateTransition

variable {α β : Type} {x : α} {bs r rest : Bytes}

theorem bind_eq_ok {ε : Type} {a : Except ε α} {f : α → Except ε β} {y : β} :
    (a >>= f) = .ok y ↔ ∃ x, a = .ok x ∧ f x = .ok y := by
  cases a with
  | error fault => simp [bind, Except.bind]
  | ok x => simp [bind, Except.bind]

theorem skipBlanks_skipBlanks (bs : Bytes) : skipBlanks (skipBlanks bs) = skipBlanks bs :=
  List.dropWhile_idempotent isBlank bs

theorem skipBlanks_of_eq {b : UInt8} (h : skipBlanks bs = b :: rest) :
    skipBlanks (b :: rest) = b :: rest := by
  rw [← h, skipBlanks_skipBlanks]

/-! ## The machine -/

namespace Outline

open Skipped

/-- What is due at a place in a text. -/
inductive State where
  /-- A value inside some brackets. -/
  | due (brackets : List Bracket) (rest : Bytes)
  /-- The first value inside a bracket, or its end. -/
  | opened (bracket : Bracket) (outer : List Bracket) (rest : Bytes)
  /-- Another value inside the innermost bracket, or its end. -/
  | ended (brackets : List Bracket) (rest : Bytes)

def closer : Bracket → UInt8
  | .list => 0x5D
  | .object => 0x7D

def enter (bracket : Bracket) (outer : List Bracket) (rest : Bytes) : Option State :=
  match bracket with
  | .list => some (.due (.list :: outer) (skipBlanks rest))
  | .object => (key rest).toOption.map (.due (.object :: outer) ·)

def step : State → Option State
  | .due brackets rest =>
    match opening (skipBlanks rest) with
    | .ok (none, rest) => some (.ended brackets rest)
    | .ok (some bracket, rest) => some (.opened bracket brackets rest)
    | .error _ => none
  | .opened bracket outer rest =>
    match skipBlanks rest with
    | [] => none
    | b :: rest =>
      if b = closer bracket then some (.ended outer rest) else enter bracket outer (b :: rest)
  | .ended [] _ => none
  | .ended (bracket :: outer) rest =>
    match skipBlanks rest with
    | [] => none
    | b :: rest =>
      if b = closer bracket then some (.ended outer rest)
      else if b = 0x2C then enter bracket outer rest
      else none

/-- The same state inside more brackets. -/
def State.under (outer : List Bracket) : State → State
  | due brackets rest => due (brackets ++ outer) rest
  | opened bracket brackets rest => opened bracket (brackets ++ outer) rest
  | ended brackets rest => ended (brackets ++ outer) rest

theorem enter_under {bracket : Bracket} {brackets : List Bracket} {s : State}
    (h : enter bracket brackets rest = some s) (outer : List Bracket) :
    enter bracket (brackets ++ outer) rest = some (s.under outer) := by
  cases bracket with
  | list =>
    cases h
    rfl
  | object =>
    obtain ⟨r, hkey, rfl⟩ := Option.map_eq_some_iff.mp h
    simp only [enter, hkey, Option.map_some]
    rfl

/-- Brackets further out play no part in a step. -/
theorem step_under {s s' : State} (h : step s = some s') (outer : List Bracket) :
    step (s.under outer) = some (s'.under outer) := by
  cases s with
  | due brackets rest =>
    simp only [step, State.under] at h ⊢
    split at h
    · cases h
      rfl
    · cases h
      rfl
    · cases h
  | opened bracket brackets rest =>
    simp only [step, State.under] at h ⊢
    split at h
    · cases h
    · split_ifs at h with hclose
      · cases h
        rw [if_pos hclose]
      · rw [if_neg hclose]
        exact enter_under h outer
  | ended brackets rest =>
    cases brackets with
    | nil => cases h
    | cons bracket brackets =>
      simp only [step, State.under, List.cons_append] at h ⊢
      split at h
      · cases h
      · split_ifs at h with hclose hcomma
        · cases h
          rw [if_pos hclose]
        · rw [if_neg hclose, if_pos hcomma]
          exact enter_under h outer

theorem reaches_under {s s' : State} (h : Reaches step s s') (outer : List Bracket) :
    Reaches step (s.under outer) (s'.under outer) := by
  induction h with
  | refl => exact .refl
  | tail _ hstep ih => exact ih.tail (step_under hstep outer)

theorem rest_unique {s : State} {a b : Bytes} (ha : Reaches step s (.ended [] a))
    (hb : Reaches step s (.ended [] b)) : a = b := by
  have hstop : ∀ c, step (.ended [] c) = none := fun _ => rfl
  have h := Part.mem_unique (mem_eval.mpr ⟨ha, hstop a⟩) (mem_eval.mpr ⟨hb, hstop b⟩)
  cases h
  rfl

end Outline

/-! ## Skipping -/

namespace Skipped

open Outline

/-- The state of the machine when brackets may be closed. -/
def beforeClosing (afterValue : Bool) (inner : Bracket) (outer : List Bracket) (rest : Bytes) : State :=
  if afterValue then .ended (inner :: outer) rest else .opened inner outer rest

/-- A run comes to the place where a value is due, or to the end. -/
def RunsTo (s : State) (next : Option (Bracket × List Bracket)) (rest : Bytes) : Prop :=
  match next with
  | none => Reaches step s (.ended [] rest)
  | some (bracket, outer) => ∀ s', enter bracket outer rest = some s' → Reaches step s s'

theorem RunsTo.head {s s' : State} {next : Option (Bracket × List Bracket)}
    (hstep : step s = some s') (h : RunsTo s' next rest) : RunsTo s next rest := by
  cases next with
  | none => exact Relation.ReflTransGen.head hstep h
  | some bracket => exact fun s'' henter => Relation.ReflTransGen.head hstep (h s'' henter)

theorem closes_iff {b : UInt8} {inner : Bracket} :
    (b = 0x5D ∧ inner = .list ∨ b = 0x7D ∧ inner = .object) ↔ b = closer inner := by
  cases inner <;> simp [closer]

theorem comma_ne_closer (bracket : Bracket) : (0x2C : UInt8) ≠ closer bracket := by
  cases bracket <;> decide

theorem closing_runsTo {fuel : Nat} {afterValue : Bool} {inner : Bracket} {outer : List Bracket}
    {next : Option (Bracket × List Bracket)}
    (h : closing fuel afterValue inner outer bs = .ok (next, r)) :
    RunsTo (beforeClosing afterValue inner outer bs) next r := by
  -- one step for each bracket that is closed; a comma or a first value ends the run
  induction fuel generalizing afterValue inner outer bs with
  | zero => cases h
  | succ fuel ih =>
    simp only [closing, closes_iff] at h
    cases hbs : skipBlanks bs with
    | nil =>
      rw [hbs] at h
      cases h
    | cons b rest =>
      simp only [hbs] at h
      split_ifs at h with hcomma hclose hafter
      · obtain ⟨rfl, rfl⟩ := hcomma
        cases h
        intro s henter
        refine .single ?_
        simp only [beforeClosing, if_true, step, hbs, if_neg (comma_ne_closer inner), henter]
        rfl
      · have hstep : step (beforeClosing afterValue inner outer bs) = some (.ended outer rest) := by
          cases afterValue <;> simp [beforeClosing, step, hbs, hclose]
        refine .head hstep ?_
        cases outer with
        | nil =>
          cases h
          exact .refl
        | cons next outer => exact ih h
      · cases h
      · cases h
        intro s henter
        refine .single ?_
        simp only [beforeClosing, if_neg hafter, step, hbs, if_neg hclose, henter]
        rfl

theorem values_skipBlanks {fuel : Nat} {brackets : List Bracket}
    (h : values fuel brackets bs = .ok r) : values fuel brackets (skipBlanks bs) = .ok r := by
  cases fuel with
  | zero => cases h
  | succ fuel =>
    rw [← h]
    simp only [values, skipBlanks_skipBlanks]

/-- What skipping does after a bracket was closed or another value is due. -/
def resume (fuel : Nat) (next : Option (Bracket × List Bracket)) (rest : Bytes) :
    Except Fault Bytes :=
  match next with
  | none => .ok rest
  | some (.list, outer) => values fuel (.list :: outer) rest
  | some (.object, outer) => key rest >>= values fuel (.object :: outer)

/-- What may be closed after a bracket was opened or a value without brackets was taken. -/
def afterOpening (opened : Option Bracket) (brackets : List Bracket) (rest : Bytes) :
    Except Fault (Option (Bracket × List Bracket) × Bytes) :=
  match opened, brackets with
  | some bracket, brackets => closing (rest.length + 1) false bracket brackets rest
  | none, bracket :: brackets => closing (rest.length + 1) true bracket brackets rest
  | none, [] => .ok (none, rest)

/-- A value is skipped by what opens it and by what may be closed after it. -/
theorem values_succ (fuel : Nat) (brackets : List Bracket) (bs : Bytes) :
    values (fuel + 1) brackets bs = opening (skipBlanks bs) >>= fun taken =>
      afterOpening taken.1 brackets taken.2 >>= fun next => resume fuel next.1 next.2 := by
  rw [values]
  congr 1
  funext ⟨opened, rest⟩
  cases opened <;> cases brackets <;>
    exact bind_congr (by rintro ⟨_ | ⟨_ | _, outer⟩, rest⟩ <;> rfl)

/-- Skipping a value is a run of the machine to its end. -/
theorem values_reaches {fuel : Nat} {brackets : List Bracket} (h : values fuel brackets bs = .ok r) :
    Reaches step (.due brackets bs) (.ended [] r) := by
  induction fuel generalizing brackets bs with
  | zero => cases h
  | succ fuel ih =>
    rw [values_succ] at h
    obtain ⟨⟨opened, rest⟩, hopening, h⟩ := bind_eq_ok.mp h
    obtain ⟨⟨next, rest'⟩, hnext, h⟩ := bind_eq_ok.mp h
    have hruns : RunsTo (.due brackets bs) next rest' := by
      cases opened with
      | some bracket =>
        have hstep : step (.due brackets bs) = some (.opened bracket brackets rest) := by
          simp only [step, hopening]
        exact (closing_runsTo hnext).head hstep
      | none =>
        have hstep : step (.due brackets bs) = some (.ended brackets rest) := by
          simp only [step, hopening]
        cases brackets with
        | nil =>
          cases hnext
          exact .single hstep
        | cons bracket brackets => exact (closing_runsTo hnext).head hstep
    match next with
    | none =>
      cases h
      exact hruns
    | some (.list, outer) => exact (hruns _ rfl).trans (ih (values_skipBlanks h))
    | some (.object, outer) =>
      obtain ⟨rest'', hkey, h⟩ := bind_eq_ok.mp h
      refine (hruns (.due (.object :: outer) rest'') ?_).trans (ih h)
      rw [enter, hkey]
      rfl

end Skipped

/-! ## Readers that take one value -/

/-- What a reader takes off a text has the outline of one value. -/
def TakesValue (reader : Reader α) : Prop :=
  ∀ bs x rest, reader bs = .ok (x, rest) → Reaches Outline.step (.due [] bs) (.ended [] rest)

/-- Two readers that take a value off the same text leave the same rest. -/
theorem TakesValue.rest_eq {reader₁ : Reader α} {reader₂ : Reader β} {y : β} (h₁ : TakesValue reader₁)
    (h₂ : TakesValue reader₂) (hx : reader₁ bs = .ok (x, r)) (hy : reader₂ bs = .ok (y, rest)) :
    r = rest :=
  Outline.rest_unique (h₁ _ _ _ hx) (h₂ _ _ _ hy)

theorem takesValue_skipped : TakesValue Skipped.value := by
  intro bs x rest h
  obtain ⟨r, hvalues, h⟩ := bind_eq_ok.mp h
  cases h
  exact Skipped.values_reaches hvalues

end KeyCustody.Json
