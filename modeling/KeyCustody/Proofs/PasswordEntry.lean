import KeyCustody.Password
import KeyCustody.Proofs.PasswordKeys
import KeyCustody.Proofs.Run
/-! # Passwords that are entered

A new password is entered in pairs. The first pair of equal entries within the attempts is the password, pairs
that differ are counted, and an answer that is missing ends it. The world that is left follows from the number of
prompts and the number of pairs that differ. -/

namespace KeyCustody

namespace Password

variable {prompt : String} {answers : List String} {a b : String} {attempts left k : Nat}

theorem agree_iff : agree a b = true ↔ a = b :=
  Bytes.sameSecret_iff.trans Text.utf8_injective.eq_iff

/-- The prompts for entries in pairs. -/
def turns (prompt : String) : Nat → List String
  | 0 => []
  | 1 => [prompt]
  | n + 2 => prompt :: confirmPrompt :: turns prompt n

/-- Both entries of a pair are among the answers, and are the same text. -/
def Agrees (answers : List String) (k : Nat) (a : String) : Prop :=
  answers[2 * k]? = some a ∧ answers[2 * k + 1]? = some a

/-- Both entries of a pair are among the answers, and differ. -/
def Differs (answers : List String) (k : Nat) : Prop :=
  ∃ a b, answers[2 * k]? = some a ∧ answers[2 * k + 1]? = some b ∧ a ≠ b

theorem agrees_zero {c : String} : Agrees (a :: b :: answers) 0 c ↔ a = c ∧ b = c := by
  simp [Agrees]

theorem agrees_succ {c : String} : Agrees (a :: b :: answers) (k + 1) c ↔ Agrees answers k c := .rfl

theorem differs_zero : Differs (a :: b :: answers) 0 ↔ a ≠ b := by
  simp [Differs]

theorem differs_succ : Differs (a :: b :: answers) (k + 1) ↔ Differs answers k := .rfl

end Password

open Password

/-- The world in which so many prompts for entries have been shown, and so many pairs were said to differ. -/
def World.asked (w : World) (prompt : String) (shown mismatches : Nat) : World :=
  { w with
    answers := w.answers.drop shown
    prompts := w.prompts ++ turns prompt shown
    mismatches := w.mismatches + mismatches }

theorem World.asked_asked (w : World) (prompt : String) (n i j : Nat) :
    (w.asked prompt 2 i).asked prompt n j = w.asked prompt (n + 2) (i + j) := by
  simp only [asked, turns, List.drop_drop, List.append_assoc, Nat.add_assoc, Nat.add_comm 2 n]
  rfl

theorem World.answers_asked {w : World} {a b : String} {rest : List String} (prompt : String) (i : Nat)
    (h : w.answers = a :: b :: rest) : (w.asked prompt 2 i).answers = rest := by
  rw [asked, h]
  rfl

namespace Password

variable {w : World}

theorem prompt_eq (prompt : String) (w : World) :
    (Action.prompt prompt).runIn w =
      (w.answers.head?.elim (.error (Action.failureOf World.noAnswer)) .ok, w.asked prompt 1 0) := by
  rw [Action.runIn_prompt]
  cases hanswers : w.answers <;> simp [World.asked, turns, hanswers]

theorem confirmed_succ (prompt : String) (attempts left : Nat) (w : World) :
    (confirmed prompt attempts (left + 1)).runIn w =
      match w.answers with
      | [] => (.error (Action.failureOf World.noAnswer), w.asked prompt 1 0)
      | [_] => (.error (Action.failureOf World.noAnswer), w.asked prompt 2 0)
      | a :: b :: _ =>
        if a = b then (.ok a, w.asked prompt 2 0)
        else (confirmed prompt attempts left).runIn (w.asked prompt 2 1) := by
  obtain ⟨tree, here, answers, prompts, mismatches, randomness, drawn⟩ := w
  simp only [confirmed, Action.runIn_bind, Action.runIn_prompt]
  match answers with
  | [] => rfl
  | [a] =>
    simp only [Action.andThen_ok, Action.runIn_bind, Action.runIn_prompt, Action.andThen_error, List.append_assoc]
    rfl
  | a :: b :: rest =>
    simp only [Action.andThen_ok, Action.runIn_bind, Action.runIn_prompt, List.append_assoc]
    by_cases hab : a = b
    · rw [if_pos hab, if_pos (agree_iff.mpr hab)]
      rfl
    · rw [if_neg hab, if_neg (agree_iff.not.mpr hab)]
      rfl

theorem confirmed_of_agrees (prompt : String) (attempts : Nat) (hfirst : ∀ j < k, ∀ b, ¬ Agrees w.answers j b)
    (hagrees : Agrees w.answers k a) (hk : k < left) :
    (confirmed prompt attempts left).runIn w = (.ok a, w.asked prompt (2 * (k + 1)) k) := by
  induction k generalizing w left with
  | zero =>
    obtain ⟨left, rfl⟩ := Nat.exists_eq_add_of_lt hk
    rw [confirmed_succ]
    match hanswers : w.answers with
    | [] | [_] => simp [Agrees, hanswers] at hagrees
    | b :: c :: rest =>
      rw [hanswers] at hagrees
      obtain ⟨rfl, rfl⟩ := agrees_zero.mp hagrees
      exact if_pos rfl
  | succ k ih =>
    obtain ⟨left, rfl⟩ := Nat.exists_eq_succ_of_ne_zero (Nat.ne_zero_of_lt hk)
    rw [confirmed_succ]
    match hanswers : w.answers with
    | [] | [_] => simp [Agrees, hanswers] at hagrees
    | b :: c :: rest =>
      rw [hanswers] at hagrees hfirst
      have hne : b ≠ c := fun h => hfirst 0 (Nat.succ_pos k) b (agrees_zero.mpr ⟨rfl, h.symm⟩)
      have hrest := World.answers_asked prompt 1 hanswers
      simp only [if_neg hne]
      rw [ih (fun j hj b => hrest ▸ agrees_succ.not.mp (hfirst (j + 1) (Nat.succ_lt_succ hj) b))
        (hrest ▸ agrees_succ.mp hagrees) (Nat.lt_of_succ_lt_succ hk), World.asked_asked, Nat.add_comm 1 k]
      rfl

theorem confirmed_of_differs (prompt : String) (attempts : Nat) (hdiffers : ∀ k < left, Differs w.answers k) :
    (confirmed prompt attempts left).runIn w =
      (.error (.passwordMismatch attempts), w.asked prompt (2 * left) left) := by
  induction left generalizing w with
  | zero => simp [confirmed, World.asked, turns]
  | succ left ih =>
    rw [confirmed_succ]
    match hanswers : w.answers with
    | [] | [_] => simpa [Differs, hanswers] using hdiffers 0 (Nat.succ_pos left)
    | a :: b :: rest =>
      rw [hanswers] at hdiffers
      have hne : a ≠ b := differs_zero.mp (hdiffers 0 (Nat.succ_pos left))
      have hrest := World.answers_asked prompt 1 hanswers
      simp only [if_neg hne]
      rw [ih fun k hk => hrest ▸ differs_succ.mp (hdiffers (k + 1) (Nat.succ_lt_succ hk)), World.asked_asked,
        Nat.add_comm 1 left]
      rfl

/-- Otherwise an answer is missing. -/
theorem confirmed_of_missing (prompt : String) (attempts : Nat) (hfirst : ∀ k < left, ∀ a, ¬ Agrees w.answers k a)
    (hmissing : ∃ k < left, ¬ Differs w.answers k) :
    (confirmed prompt attempts left).runIn w =
      (.error (Action.failureOf World.noAnswer),
        w.asked prompt (w.answers.length + 1) (w.answers.length / 2)) := by
  induction left generalizing w with
  | zero =>
    obtain ⟨k, hk, -⟩ := hmissing
    exact absurd hk (Nat.not_lt_zero k)
  | succ left ih =>
    rw [confirmed_succ]
    match hanswers : w.answers with
    | [] => rfl
    | [_] => simp
    | a :: b :: rest =>
      rw [hanswers] at hfirst hmissing
      have hne : a ≠ b := fun h => hfirst 0 (Nat.succ_pos left) a (agrees_zero.mpr ⟨rfl, h.symm⟩)
      have hrest := World.answers_asked prompt 1 hanswers
      obtain ⟨k, hk, hmissing⟩ := hmissing
      obtain ⟨k, rfl⟩ : ∃ n, k = n + 1 :=
        Nat.exists_eq_succ_of_ne_zero fun h => hmissing (h ▸ differs_zero.mpr hne)
      have hlength : (rest.length + 2) / 2 = 1 + rest.length / 2 := by omega
      simp only [if_neg hne]
      rw [ih, World.asked_asked, hrest, List.length_cons, List.length_cons, hlength]
      · exact fun j hj c => hrest ▸ agrees_succ.not.mp (hfirst (j + 1) (Nat.succ_lt_succ hj) c)
      · exact ⟨k, Nat.lt_of_succ_lt_succ hk, hrest ▸ differs_succ.not.mp hmissing⟩

/-- A password that is given is taken as it is, and one that need not be confirmed is asked for once. A new one
is the first pair that agrees within the attempts; if all of these differ it is a mismatch, and otherwise the
answers run out before that. -/
theorem acquire_entered (w : World) (prompt : String) (attempts : Nat) :
    (∀ k a, Agrees w.answers k a → (∀ j < k, ∀ b, ¬ Agrees w.answers j b) → k < attempts →
        (acquire none prompt true attempts).runIn w = (.ok a, w.asked prompt (2 * (k + 1)) k)) ∧
      ((∀ k < attempts, Differs w.answers k) →
        (acquire none prompt true attempts).runIn w =
          (.error (.passwordMismatch attempts), w.asked prompt (2 * attempts) attempts)) ∧
      ((∀ k < attempts, ∀ a, ¬ Agrees w.answers k a) → (∃ k < attempts, ¬ Differs w.answers k) →
        (acquire none prompt true attempts).runIn w =
          (.error (Action.failureOf World.noAnswer),
            w.asked prompt (w.answers.length + 1) (w.answers.length / 2))) ∧
      (∀ password confirm, (acquire (some password) prompt confirm attempts).runIn w = (.ok password, w)) ∧
      (acquire none prompt false attempts).runIn w =
        (w.answers.head?.elim (.error (Action.failureOf World.noAnswer)) .ok, w.asked prompt 1 0) := by
  exact ⟨fun k a hagrees hfirst hk => confirmed_of_agrees prompt attempts hfirst hagrees hk,
    confirmed_of_differs prompt attempts, confirmed_of_missing prompt attempts, fun password confirm => rfl,
    prompt_eq prompt w⟩

/-- A pair that agrees after one that differs, with one answer left over; the same pairs with a single attempt;
and an answer too few. -/
theorem acquire_entered_samples :
    let w := World.start [] ["a", "b", "c", "c", "d"] fun _ => 0
    let v := World.start [] ["a", "b", "c"] fun _ => 0
    (acquire none "New: " true 2).runIn w = (.ok "c", w.asked "New: " 4 1) ∧
      (acquire none "New: " true 1).runIn w = (.error (.passwordMismatch 1), w.asked "New: " 2 1) ∧
      (acquire none "New: " true 2).runIn v = (.error (Action.failureOf World.noAnswer), v.asked "New: " 4 1) := by
  have hdiffers : ∀ k < 1, Differs ["a", "b", "c", "c", "d"] k := by
    intro k hk
    obtain rfl := Nat.lt_one_iff.mp hk
    exact differs_zero.mpr (by decide)
  refine ⟨(acquire_entered _ _ _).1 1 "c" ⟨rfl, rfl⟩ ?_ (by decide), (acquire_entered _ _ _).2.1 hdiffers,
    (acquire_entered _ _ _).2.2.1 ?_ ⟨1, by decide, ?_⟩⟩
  · intro j hj b h
    obtain rfl := Nat.lt_one_iff.mp hj
    obtain ⟨rfl, hb⟩ := agrees_zero.mp h
    exact absurd hb (by decide)
  · intro k hk a h
    obtain rfl | rfl : k = 0 ∨ k = 1 := by omega
    · obtain ⟨rfl, ha⟩ := agrees_zero.mp h
      exact absurd ha (by decide)
    · cases h.2
  · rintro ⟨a, b, -, hb, -⟩
    cases hb

end Password

end KeyCustody
