import KeyCustody.World
/-! # Running programs and actions

A program followed by another one runs in the world that the first one leaves, and an action that
fails keeps the ones after it from running. These are the laws by which runs of the operations on key
files are taken apart, call by call. -/

namespace KeyCustody

variable {α β : Type}

theorem Program.run_bind (p : Program α) (f : α → Program β) (w : World) :
    (p >>= f).run w = (f (p.run w).1).run (p.run w).2 := by
  change (p.bind f).run w = _
  induction p generalizing w with
  | done a => rfl
  | workingDirectory next ih => exact ih _ _
  | prompt text next ih =>
    simp only [Program.bind, Program.run]
    cases w.answers <;> simp only [ih]
  | noteMismatch next ih => exact ih _ _
  | random count next ih => exact ih _ _
  | readBytes path next ih => exact ih _ _
  | makeDirectory path next ih => exact ih _ _
  | isDirectory path next ih => exact ih _ _
  | makeTemporary directory next ih =>
    simp only [Program.bind, Program.run]
    cases w.tree.makeTemporary w.here directory <;> simp only [ih]
  | append file contents next ih => exact ih _ _
  | sync file next ih => exact ih _ _
  | move file path next ih => exact ih _ _
  | discard file next ih => exact ih _ _

namespace Action

/-- What a run comes to when another action follows it. -/
def andThen (r : Outcome α × World) (f : α → Action β) : Outcome β × World :=
  match r with
  | (.ok a, w) => (f a).runIn w
  | (.error e, w) => (.error e, w)

@[simp] theorem andThen_ok (a : α) (w : World) (f : α → Action β) :
    andThen (.ok a, w) f = (f a).runIn w := rfl

@[simp] theorem andThen_error (e : Failure) (w : World) (f : α → Action β) :
    andThen (.error e, w) f = (.error e, w) := rfl

theorem runIn_bind (a : Action α) (f : α → Action β) (w : World) :
    (a >>= f).runIn w = andThen (a.runIn w) f := by
  change Program.run (ExceptT.run a >>= _) w = _
  rw [Program.run_bind]
  unfold runIn
  generalize Program.run (ExceptT.run a) w = r
  obtain ⟨e | x, w'⟩ := r <;> rfl

@[simp] theorem runIn_pure (a : α) (w : World) : (pure a : Action α).runIn w = (.ok a, w) := rfl

@[simp] theorem runIn_throw (e : Failure) (w : World) :
    (throw e : Action α).runIn w = (.error e, w) := rfl

@[simp] theorem runIn_ofOutcome (r : Outcome α) (w : World) : (ofOutcome r).runIn w = (r, w) := rfl

theorem runIn_ofCall (p : Program (IoResult α)) (w : World) :
    (ofCall p).runIn w = ((p.run w).1.mapError failureOf, (p.run w).2) := by
  change Program.run (p >>= _) w = _
  rw [Program.run_bind]
  rfl

@[simp] theorem runIn_random (count : Nat) (w : World) :
    (random count).runIn w = (.ok (w.draw count), { w with drawn := w.drawn + count }) := rfl

theorem runIn_prompt (text : String) (w : World) :
    (Action.prompt text).runIn w =
      match w.answers with
      | [] => (.error (Action.failureOf World.noAnswer), { w with prompts := w.prompts ++ [text] })
      | a :: rest => (.ok a, { w with prompts := w.prompts ++ [text], answers := rest }) := by
  rw [Action.prompt, Action.runIn_ofCall, Program.run]
  cases w.answers <;> rfl

theorem runIn_readBytes (path : Path) (w : World) :
    (readBytes path).runIn w =
      ((World.answer (w.tree.read w.here path)).mapError failureOf, w) := rfl

theorem runIn_bind_ok {a : Action α} {f : α → Action β} {w w' : World} {b : β}
    (h : (a >>= f).runIn w = (.ok b, w')) :
    ∃ x w₁, a.runIn w = (.ok x, w₁) ∧ (f x).runIn w₁ = (.ok b, w') := by
  rw [runIn_bind] at h
  cases hr : a.runIn w with
  | mk r w₁ =>
    rw [hr] at h
    cases r with
    | error e => cases h
    | ok x => exact ⟨x, w₁, rfl, h⟩

theorem runIn_bind_error {a : Action α} {f : α → Action β} {w w' : World} {e : Failure}
    (h : (a >>= f).runIn w = (.error e, w')) :
    a.runIn w = (.error e, w') ∨
      ∃ x w₁, a.runIn w = (.ok x, w₁) ∧ (f x).runIn w₁ = (.error e, w') := by
  rw [runIn_bind] at h
  cases hr : a.runIn w with
  | mk r w₁ =>
    rw [hr] at h
    cases r with
    | error e' =>
      left
      cases h
      rfl
    | ok x => exact .inr ⟨x, w₁, rfl, h⟩

theorem runIn_eq_ok {a : Action α} {w : World} (h : (a.runIn w).1.toOption.isSome = true) :
    ∃ x w', a.runIn w = (.ok x, w') := by
  obtain ⟨x, hx⟩ := Outcome.exists_ok h
  exact ⟨x, _, Prod.ext hx rfl⟩

theorem runIn_eq_error {a : Action α} {w : World} (h : (a.runIn w).1.toOption.isSome = false) :
    ∃ e w', a.runIn w = (.error e, w') := by
  cases hr : a.runIn w with
  | mk r w' =>
    rw [hr] at h
    cases r with
    | error e => exact ⟨e, w', rfl⟩
    | ok y => cases h

/-- A text that is read is the one that the bytes of the file spell, and reading changes nothing. -/
theorem runIn_readText {path : Path} {w w' : World} {text : String} :
    (readText path).runIn w = (.ok text, w') ↔
      (∃ bytes, w.tree.read w.here path = .ok bytes ∧ Text.ofUtf8? bytes = some text) ∧ w' = w := by
  unfold readText
  rw [runIn_bind, runIn_readBytes]
  cases w.tree.read w.here path with
  | error kind =>
    have hanswer : (World.answer (.error kind : Except IoKind Bytes)).mapError failureOf =
        .error (failureOf kind.fault) := rfl
    simp [hanswer]
  | ok bytes =>
    have hanswer : (World.answer (.ok bytes : Except IoKind Bytes)).mapError failureOf =
        .ok bytes := rfl
    simp only [hanswer, andThen_ok, Except.ok.injEq, exists_eq_left']
    cases Text.ofUtf8? bytes with
    | none => simp
    | some found => simp [eq_comm]

end Action

end KeyCustody
