import KeyCustody.Proofs.Walk
/-! # Paths of public halves

The path of a public half ends in the last segment of the path of the private half and `.pub`, so it
never leads to the same place, and it always has a file name at its end. -/

namespace KeyCustody

namespace Path

variable {p : Path} {cs : List Char} {xs : List (List Char)} {s : List Char}

theorem segments_of_notMem (h : '/' ∉ cs) : segments cs = [cs] := by
  induction cs with
  | nil => rfl
  | cons c cs ih =>
    simp only [List.mem_cons, not_or] at h
    rw [segments, ih h.2]
    exact fun hc => h.1 hc.symm

theorem segments_cons {c : Char} {first : List Char} {rest : List (List Char)} (hc : c ≠ '/')
    (h : segments cs = first :: rest) : segments (c :: cs) = (c :: first) :: rest := by
  rw [segments, h]
  exact hc

theorem segments_append {ds : List Char} (hd : '/' ∉ ds) (cs : List Char) :
    ∃ xs s, segments cs = xs ++ [s] ∧ segments (cs ++ ds) = xs ++ [s ++ ds] := by
  induction cs with
  | nil => exact ⟨[], [], rfl, segments_of_notMem hd⟩
  | cons c cs ih =>
    obtain ⟨xs, s, hcs, hall⟩ := ih
    by_cases hc : c = '/'
    · subst hc
      exact ⟨[] :: xs, s, by simp [segments, hcs], by simp [segments, hall]⟩
    · cases xs with
      | nil => exact ⟨[], c :: s, segments_cons hc hcs, segments_cons hc hall⟩
      | cons x xs => exact ⟨(c :: x) :: xs, s, segments_cons hc hcs, segments_cons hc hall⟩

theorem publicKey_chars (p : Path) : p.publicKey.text.toList = p.text.toList ++ ".pub".toList := by
  simp [publicKey]

theorem segments_publicKey (p : Path) :
    ∃ xs s, segments p.text.toList = xs ++ [s] ∧
      segments p.publicKey.text.toList = xs ++ [s ++ ".pub".toList] := by
  rw [publicKey_chars]
  exact segments_append (by decide) p.text.toList

theorem isAbsolute_publicKey (p : Path) : p.publicKey.isAbsolute = p.isAbsolute := by
  rw [isAbsolute, isAbsolute, publicKey_chars]
  cases p.text.toList <;> rfl

theorem publicKey_join (directory p : Path) :
    (directory.join p).publicKey = directory.join p.publicKey := by
  unfold join
  rw [isAbsolute_publicKey]
  split_ifs
  · rfl
  · simp [publicKey, String.append_assoc]
  · simp [publicKey, String.append_assoc]

/-- The last segment of a path, slashes at its end aside. -/
def lastSegment (p : Path) : String :=
  (((segments p.text.toList).map String.ofList).reverse.dropWhile (· == "")).headD ""

theorem isIdle_publicKey (s : List Char) : isIdle (s ++ ".pub".toList) = false := by
  have hlength : (s ++ ".pub".toList).length = s.length + 4 := by simp
  have hne : ∀ t : List Char, t.length < 4 → s ++ ".pub".toList ≠ t := by
    rintro t ht rfl
    omega
  simp only [isIdle, Bool.or_eq_false_iff, beq_eq_false_iff_ne]
  exact ⟨hne [] (by decide), hne ['.'] (by decide)⟩

/-- What follows the start of a path has the last segment that the path has, unless that is idle. -/
theorem segments_split (h : segments cs = xs ++ [s]) (hs : isIdle s = false) :
    ∃ ys, segments (split cs).2 = ys ++ [s] := by
  have htail : ∀ t ts, isIdle t = true → t :: ts = xs ++ [s] → ∃ ys, ts = ys ++ [s] := by
    intro t ts ht hall
    cases xs with
    | nil =>
      rw [(List.cons.inj hall).1, hs] at ht
      cases ht
    | cons x xs => exact ⟨xs, (List.cons.inj hall).2⟩
  unfold split
  split
  next cs => exact htail [] (segments cs) rfl h
  next =>
    obtain ⟨ys, hys⟩ := htail ['.'] [] rfl h
    simp at hys
  next cs =>
    obtain ⟨ys, hys⟩ := htail ['.'] (segments cs) rfl h
    exact ⟨[] :: ys, congrArg ([] :: ·) hys⟩
  next => exact ⟨xs, h⟩

/-- The last component of a path stands for its last segment, unless that is idle. -/
theorem getLast?_components (h : segments p.text.toList = xs ++ [s]) (hs : isIdle s = false) :
    p.components.getLast? = some (.ofSegment s) := by
  obtain ⟨ys, hbody⟩ := segments_split h hs
  simp [components, named, hbody, hs, List.getLast?_append]

/-- A key can be kept at the path of any public half. -/
theorem check_publicKey (p : Path) : p.publicKey.check = .ok () := by
  obtain ⟨xs, s, -, hsegments⟩ := p.segments_publicKey
  have hnonempty : p.publicKey.text ≠ "" := by simp [publicKey]
  have hname : s ++ ".pub".toList ≠ ['.', '.'] := by
    intro h
    have hlength := congrArg List.length h
    simp at hlength
  have hlast := getLast?_components hsegments (isIdle_publicKey s)
  rw [Component.ofSegment, if_neg hname] at hlast
  rw [check, if_neg hnonempty, fileName?, hlast]
  rfl

end Path

namespace FileTree

variable {mid t : FileTree} {here l : Location} {p : Path} {contents : Bytes} {g : Target}

theorem segments_eq_ok {ss : List String} (h : segments p = .ok ss) :
    ss = (Path.segments p.text.toList).map String.ofList := by
  unfold segments at h
  split_ifs at h
  exact (Except.ok.inj h).symm

theorem target_last (h : t.target here p = .ok g) : g.last = p.lastSegment := by
  unfold target at h
  cases hs : segments p with
  | error kind => rw [hs] at h; cases h
  | ok ss =>
    obtain rfl := segments_eq_ok hs
    rw [hs] at h
    simp only [bind, Except.bind] at h
    split at h
    · cases h
    · cases h
      rfl

theorem publicKey_location_ne (hput : Put mid here p.publicKey contents g t) {t' : FileTree}
    (hdir : ∀ l, mid.lookup l = some .directory → t'.lookup l = some .directory)
    (h : t'.resolve here p = .ok l) : l ≠ g.location := by
  obtain ⟨xs, hpublic, hd⟩ := target_eq_ok hput.target hput.slashes hput.isName
  cases hs : segments p with
  | error kind => rw [FileTree.resolve, hs] at h; cases h
  | ok ss =>
    rw [FileTree.resolve, hs] at h
    change t'.follow (origin here p) ss = .ok l at h
    obtain ⟨ys, s, hys, hysPub⟩ := p.segments_publicKey
    have horigin : origin here p.publicKey = origin here p := by
      rw [origin, origin, Path.isAbsolute_publicKey]
    have hlast : xs ++ [g.last] = ys.map String.ofList ++ [String.ofList (s ++ ".pub".toList)] := by
      rw [segments_eq_ok hpublic, hysPub]
      simp
    obtain ⟨hxs, hname⟩ := List.append_inj' hlast rfl
    have hg : g.last = String.ofList (s ++ ".pub".toList) := (List.cons.inj hname).1
    rw [segments_eq_ok hs, hys, List.map_append, ← hxs] at h
    rw [horigin] at hd
    rw [follow_append hdir hd] at h
    have hne : g.last ≠ String.ofList s := by
      rw [hg]
      simp
    rw [Target.location]
    intro hl
    rw [hl] at h
    rcases follow_name h with h | h | h
    · simpa using congrArg List.length h
    · have hlength := congrArg List.length h
      simp only [List.length_cons, List.length_tail] at hlength
      omega
    · exact hne (List.cons.inj h).1

/-- The name of the public half is the one of the private half and `.pub`, in the same directory. -/
theorem target_publicKey {g' : Target} (h : t.target here p = .ok g) (hslashes : g.slashes = false)
    (hname : g.isName = true) (h' : t.target here p.publicKey = .ok g') (hslashes' : g'.slashes = false)
    (hname' : g'.isName = true) : g'.location = (g.last ++ ".pub") :: g.directory := by
  obtain ⟨xs, hsegments, hd⟩ := target_eq_ok h hslashes hname
  obtain ⟨xs', hsegments', hd'⟩ := target_eq_ok h' hslashes' hname'
  obtain ⟨ys, s, hys, hysPub⟩ := p.segments_publicKey
  have hall := segments_eq_ok hsegments
  have hall' := segments_eq_ok hsegments'
  rw [hys, List.map_append] at hall
  rw [hysPub, List.map_append] at hall'
  obtain ⟨rfl, hlast⟩ := List.append_inj' hall rfl
  obtain ⟨rfl, hlast'⟩ := List.append_inj' hall' rfl
  have hg : g.last = String.ofList s := (List.cons.inj hlast).1
  have hg' : g'.last = String.ofList (s ++ ".pub".toList) := (List.cons.inj hlast').1
  rw [origin, Path.isAbsolute_publicKey, ← origin, hd] at hd'
  rw [Target.location, ← Except.ok.inj hd', hg', hg, String.ofList_append, String.ofList_toList]

/-- The two halves of a key never have the same place. -/
theorem publicKey_location_ne_location {g' : Target} (h : t.target here p = .ok g)
    (hslashes : g.slashes = false) (hname : g.isName = true) (h' : t.target here p.publicKey = .ok g')
    (hslashes' : g'.slashes = false) (hname' : g'.isName = true) : g'.location ≠ g.location := by
  rw [target_publicKey h hslashes hname h' hslashes' hname']
  intro heq
  have hlength := congrArg String.length (List.cons.inj heq).1
  simp at hlength

end FileTree

end KeyCustody
