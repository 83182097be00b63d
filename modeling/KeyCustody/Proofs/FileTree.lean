import KeyCustody.FileTree
import Mathlib.Data.List.Nodup
import Mathlib.Tactic.Common
/-! # Entries of a file tree

What is found in a tree after an entry has been added or taken away, and why a temporary file never
gets the place of an entry that is there. -/

namespace KeyCustody.FileTree

variable {t t' t'' : FileTree} {l l' : Location}

theorem lookup_of_ne (t : FileTree) (hl : l ≠ []) : t.lookup l = t.entries.lookup l := by
  cases l with
  | nil => exact absurd rfl hl
  | cons s d => rfl

private theorem lookup_filter (entries : List (Location × Entry)) (h : l' ≠ l) :
    (entries.filter fun e => e.1 != l).lookup l' = entries.lookup l' := by
  induction entries with
  | nil => rfl
  | cons e entries ih =>
    obtain ⟨place, e⟩ := e
    by_cases hp : place = l
    · have hne : (l' == place) = false := by simpa [hp] using h
      simp [hp, List.lookup_cons, hp ▸ hne, ih]
    · by_cases hq : l' = place <;> simp [hp, hq, List.lookup_cons, ih]

private theorem lookup_filter_self (entries : List (Location × Entry)) :
    (entries.filter fun e => e.1 != l).lookup l = none := by
  rw [List.lookup_eq_none_iff]
  intro e he
  simp only [List.mem_filter, bne_iff_ne] at he
  simpa using fun h => he.2 h.symm

theorem lookup_erase (t : FileTree) (hl : l ≠ []) (l' : Location) :
    (t.erase l).lookup l' = if l' = l then none else t.lookup l' := by
  by_cases hr : l' = []
  · subst hr
    exact (if_neg (Ne.symm hl)).symm
  · rw [lookup_of_ne _ hr, lookup_of_ne _ hr]
    split_ifs with h
    · rw [h]
      exact lookup_filter_self _
    · exact lookup_filter _ h

theorem lookup_insert (t : FileTree) (hl : l ≠ []) (e : Entry) (l' : Location) :
    (t.insert l e).lookup l' = if l' = l then some e else t.lookup l' := by
  by_cases hr : l' = []
  · subst hr
    exact (if_neg (Ne.symm hl)).symm
  · rw [lookup_of_ne _ hr, lookup_of_ne _ hr]
    split_ifs with h
    · rw [h]
      simp [insert]
    · have hne : (l' == l) = false := by simpa using h
      rw [insert, List.lookup_cons, hne]
      exact lookup_filter _ h

def file? (t : FileTree) (l : Location) : Option Bytes :=
  match t.lookup l with
  | some (.file contents) => some contents
  | _ => none

theorem file?_eq_some {contents : Bytes} :
    t.file? l = some contents ↔ t.lookup l = some (.file contents) := by
  unfold file?
  split <;> simp_all

theorem file?_congr (h : t'.lookup l = t.lookup l) : t'.file? l = t.file? l := by
  rw [file?, file?, h]

/-! ## Fresh places -/

theorem temporaryName_injective : Function.Injective temporaryName := by
  intro m n h
  simp only [temporaryName, String.append_right_inj] at h
  have hd : Nat.toDigits 10 m = Nat.toDigits 10 n := by
    have hlists := congrArg String.toList h
    simpa [Decimal.text, Decimal.digits] using hlists
  rw [← Nat.ofDigitChars_ten_toDigits (n := m), hd, Nat.ofDigitChars_ten_toDigits]

/-- Some name is free, since there are more names than entries. -/
theorem exists_free (t : FileTree) (d : Location) :
    ∃ n < t.entries.length + 1, t.lookup (temporaryName n :: d) = none := by
  by_contra hall
  push Not at hall
  let places := (List.range (t.entries.length + 1)).map fun n => temporaryName n :: d
  have hnodup : places.Nodup := by
    refine List.Nodup.map (fun m n h => ?_) List.nodup_range
    exact temporaryName_injective (List.cons.inj h).1
  have hsub : places ⊆ t.entries.map Prod.fst := by
    intro place hplace
    obtain ⟨n, hn, rfl⟩ := List.mem_map.mp hplace
    have htaken := hall n (List.mem_range.mp hn)
    by_contra hfree
    refine htaken (List.lookup_eq_none_iff.mpr ?_)
    intro e he
    simpa using fun h => hfree (List.mem_map.mpr ⟨e, he, h.symm⟩)
  have hlength := hnodup.length_le_of_subset hsub
  simp only [places, List.length_map, List.length_range] at hlength
  omega

theorem freshLocation_spec (t : FileTree) (d : Location) :
    t.lookup (t.freshLocation d) = none ∧ ∃ n, t.freshLocation d = temporaryName n :: d := by
  obtain ⟨n, hn, hfree⟩ := t.exists_free d
  rw [freshLocation]
  cases hf : ((List.range (t.entries.length + 1)).map temporaryName).find?
      fun name => (t.lookup (name :: d)).isNone with
  | none =>
    rw [List.find?_eq_none] at hf
    have := hf (temporaryName n) (List.mem_map.mpr ⟨n, List.mem_range.mpr hn, rfl⟩)
    simp [hfree] at this
  | some name =>
    have hname := List.find?_some hf
    obtain ⟨m, -, rfl⟩ := List.mem_map.mp (List.mem_of_find?_eq_some hf)
    exact ⟨by simpa using hname, m, rfl⟩

theorem makeTemporary_eq_ok {here : Location} {p : Path}
    (h : t.makeTemporary here p = .ok (l, t')) :
    ∃ d n, t.resolveDirectory here p = .ok d ∧ l = temporaryName n :: d ∧ t.lookup l = none ∧
      t' = t.insert l (.file []) := by
  unfold makeTemporary at h
  cases hd : t.resolveDirectory here p with
  | error kind => rw [hd] at h; cases h
  | ok d =>
    rw [hd] at h
    cases h
    obtain ⟨hfree, n, hn⟩ := t.freshLocation_spec d
    exact ⟨d, n, rfl, hn, hfree, rfl⟩

end KeyCustody.FileTree
