import KeyCustody.Proofs.DefaultPath
import Mathlib.Data.List.Induction
/-! # Public files next to private ones

The path of a public half is the text of a path and an ending, while parents and last names are read off
components. Both views agree exactly if the text ends in its last component. Behind a slash, or a slash and a
dot, the ending is a component of its own: the public half is then kept below the path, not next to it. -/

namespace KeyCustody.Path

variable {p q d : Path} {cs body : List Char} {ss xs : List (List Char)} {s : List Char} {start : Start}

/-! ## Components by segments -/

theorem joinSegments_segments (cs : List Char) : joinSegments (segments cs) = cs := by
  induction cs with
  | nil => rfl
  | cons c cs ih =>
    obtain ⟨first, rest, hcs⟩ := List.exists_cons_of_ne_nil (segments_ne_nil cs)
    rw [hcs] at ih
    by_cases hc : c = '/'
    · subst hc
      rw [segments, hcs, ← ih]
      simp [joinSegments, List.intercalate_cons_cons]
    · rw [segments_cons hc hcs, ← ih]
      cases rest <;> simp [joinSegments, List.intercalate_cons_cons]

/-- What stands before the named components of a path with certain segments. -/
def leading : List (List Char) → List Component
  | [] :: _ :: _ => [.root]
  | ['.'] :: _ => [.here]
  | _ => []

theorem leading_of_split (h : (split cs).1 = .nowhere) : leading (segments cs) = [] := by
  have hcs := joinSegments_segments cs
  generalize segments cs = ss at hcs
  subst hcs
  unfold leading
  split
  · simp [joinSegments, List.intercalate_cons_cons, split] at h
  next rest =>
    cases rest with
    | nil => simp [joinSegments, split] at h
    | cons s rest => simp [joinSegments, List.intercalate_cons_cons, split] at h
  · rfl

/-- The components of a path are read off its segments. -/
theorem components_eq (p : Path) :
    p.components = leading (segments p.text.toList) ++
      ((segments p.text.toList).filter fun s => !isIdle s).map Component.ofSegment := by
  unfold components
  generalize p.text.toList = cs
  have hnowhere : (split cs).1 = .nowhere → leading (segments cs) = [] := leading_of_split
  revert hnowhere
  fun_cases split cs with
  | case1 cs =>
    intro _
    obtain ⟨first, rest, hcs⟩ := List.exists_cons_of_ne_nil (segments_ne_nil cs)
    simp [segments, named, hcs, leading, Start.components, isIdle]
  | case2 =>
    intro _
    rfl
  | case3 cs =>
    intro _
    simp [segments, named, leading, Start.components, isIdle]
  | case4 cs =>
    intro h
    rw [h rfl]
    rfl

theorem named_joinSegments (h : ∀ s ∈ ss, '/' ∉ s) :
    named (joinSegments ss) = ss.filter fun s => !isIdle s := by
  cases ss with
  | nil => rfl
  | cons s ss => rw [named, segments_joinSegments (List.cons_ne_nil s ss) h]

theorem trimEnd_isPrefix (ss : List (List Char)) : trimEnd ss <+: ss := by
  rw [trimEnd, ← List.reverse_suffix, List.reverse_reverse]
  exact List.dropWhile_suffix isIdle

/-- Nothing that names something is lost at an end that is taken off. -/
theorem filter_dropWhile (ss : List (List Char)) :
    (ss.dropWhile isIdle).filter (fun s => !isIdle s) = ss.filter fun s => !isIdle s := by
  induction ss with
  | nil => rfl
  | cons s ss ih =>
    cases hs : isIdle s with
    | true => simp [hs, ih]
    | false => simp [hs]

theorem filter_trimEnd (ss : List (List Char)) :
    (trimEnd ss).filter (fun s => !isIdle s) = ss.filter fun s => !isIdle s := by
  rw [trimEnd, List.filter_reverse, filter_dropWhile, ← List.filter_reverse, List.reverse_reverse]

/-! ## Parents -/

theorem leading_of_prefix {ts : List (List Char)} (h : ss <+: ts) (hts : leading ts = []) :
    leading ss = [] := by
  obtain ⟨rest, rfl⟩ := h
  unfold leading
  split
  · cases hts
  · cases hts
  · rfl

theorem split_eq_here {body : List Char} (h : split cs = (.here, body)) :
    ∃ rest, segments body = [] :: rest := by
  unfold split at h
  split at h
  · cases h
  · cases h
    exact ⟨[], rfl⟩
  next cs =>
    cases h
    exact ⟨segments cs, rfl⟩
  · cases h

theorem split_eq_nowhere {body : List Char} (h : split cs = (.nowhere, body)) : body = cs := by
  unfold split at h
  split at h
  · cases h
  · cases h
  · cases h
  · cases h
    rfl

/-- The path that is put together from the start of a text and the first segments after it. -/
theorem components_joinSegments {start : Start} {body : List Char} (hsplit : split cs = (start, body))
    (hss : ss <+: segments body) :
    (Path.mk (String.ofList (start.chars ++ joinSegments ss))).components =
      start.components ++ (ss.filter fun s => !isIdle s).map Component.ofSegment := by
  have hslash : ∀ s ∈ ss, '/' ∉ s := fun s hs => notMem_of_mem_segments (hss.subset hs)
  cases start with
  | root => simp [components, Start.chars, split, named_joinSegments hslash]
  | here =>
    obtain ⟨rest, hrest⟩ := split_eq_here hsplit
    rw [hrest] at hss
    cases ss with
    | nil => rfl
    | cons s ss =>
      obtain rfl := (List.cons_prefix_cons.mp hss).1
      cases ss with
      | nil => rfl
      | cons s' ss =>
        have hall := named_joinSegments hslash
        have htext : joinSegments ([] :: s' :: ss) = '/' :: joinSegments (s' :: ss) := by
          simp [joinSegments, List.intercalate_cons_cons]
        rw [htext] at hall ⊢
        simp [components, Start.chars, split, hall]
  | nowhere =>
    obtain rfl := split_eq_nowhere hsplit
    have hleading := leading_of_prefix hss (leading_of_split (congrArg Prod.fst hsplit))
    cases ss with
    | nil => rfl
    | cons s ss =>
      rw [components_eq]
      simp only [Start.chars, List.nil_append, String.toList_ofList,
        segments_joinSegments (List.cons_ne_nil s ss) hslash, hleading]
      rfl

/-- What a parent is put together from, and the last component of the path. -/
theorem named_of_dropWhile {last : List Char} {others : List (List Char)}
    (h : (segments body).reverse.dropWhile isIdle = last :: others) :
    others.reverse <+: segments body ∧
      named body = (others.reverse.filter fun s => !isIdle s) ++ [last] := by
  constructor
  · have hsuffix := List.dropWhile_suffix isIdle (l := (segments body).reverse)
    rw [h, ← List.reverse_prefix, List.reverse_reverse, List.reverse_cons] at hsuffix
    exact (List.prefix_append _ _).trans hsuffix
  · have hlast := List.head?_dropWhile_not isIdle (segments body).reverse
    have hfilter := filter_dropWhile (segments body).reverse
    rw [h, List.filter_reverse] at hfilter
    rw [h, List.head?_cons] at hlast
    rw [named, ← List.reverse_inj, ← hfilter]
    simp [hlast]

theorem named_eq_nil (h : (segments body).reverse.dropWhile isIdle = []) : named body = [] := by
  have hfilter := filter_dropWhile (segments body).reverse
  rw [h, List.filter_reverse] at hfilter
  exact List.reverse_eq_nil_iff.mp hfilter.symm

theorem components_of_split (h : split p.text.toList = (start, body)) :
    p.components = start.components ++ (named body).map Component.ofSegment := by
  rw [components, h]

theorem components_parent? (h : p.parent? = some q) : q.components = p.components.dropLast := by
  obtain ⟨⟨start, body⟩, hsplit⟩ : ∃ parts, split p.text.toList = parts := ⟨_, rfl⟩
  rw [components_of_split hsplit]
  unfold parent? at h
  rw [hsplit] at h
  simp only at h
  split at h
  next last others hsegments =>
    obtain rfl := Option.some.inj h
    obtain ⟨hothers, hnamed⟩ := named_of_dropWhile hsegments
    rw [components_joinSegments hsplit ((trimEnd_isPrefix _).trans hothers), filter_trimEnd, hnamed,
      List.map_append, List.map_singleton, ← List.append_assoc, List.dropLast_concat]
  next hsegments =>
    rw [named_eq_nil hsegments]
    split_ifs at h with hstart
    cases h
    subst hstart
    rfl

theorem exists_parent? {name : String} (h : p.components.getLast? = some (.name name)) :
    ∃ d, p.parent? = some d := by
  obtain ⟨⟨start, body⟩, hsplit⟩ : ∃ parts, split p.text.toList = parts := ⟨_, rfl⟩
  rw [components_of_split hsplit] at h
  unfold parent?
  rw [hsplit]
  simp only
  split
  · exact ⟨_, rfl⟩
  next hsegments =>
    rw [named_eq_nil hsegments] at h
    cases start <;> cases h

/-! ## The path of a public half -/

/-- A text that ends behind its last component, in a slash or in a slash and a dot. -/
def EndsIdle (p : Path) : Prop := ['/'] <:+ p.text.toList ∨ ['/', '.'] <:+ p.text.toList

instance (p : Path) : Decidable p.EndsIdle :=
  inferInstanceAs (Decidable (['/'] <:+ p.text.toList ∨ ['/', '.'] <:+ p.text.toList))

/-- Both paths have parents, and these have the same components. -/
def SharesParent (p q : Path) : Prop :=
  ∃ d e, p.parent? = some d ∧ q.parent? = some e ∧ e.components = d.components

theorem check_eq_ok : p.check = .ok () ↔ ∃ name, p.components.getLast? = some (.name name) := by
  have hempty : p.text = "" → p.components = [] := by
    intro htext
    rw [components, htext]
    rfl
  rw [check, fileName?]
  split_ifs with htext hname
  · simp [hempty htext]
  · split at hname
    · cases hname
    next hnone => simpa using hnone
  · split at hname
    next name hlast => exact ⟨fun _ => ⟨name, hlast⟩, fun _ => rfl⟩
    · cases hname rfl

/-- The last of several segments is what follows the last slash. -/
theorem exists_before (h : segments cs = xs ++ [s]) (hxs : xs ≠ []) :
    ∃ before, cs = before ++ '/' :: s := by
  induction cs using List.reverseRecOn generalizing s with
  | nil =>
    obtain ⟨x, xs, rfl⟩ := List.exists_cons_of_ne_nil hxs
    simp [segments] at h
  | append_singleton cs c ih =>
    by_cases hc : c = '/'
    · subst hc
      rw [segments_append_slash] at h
      exact ⟨cs, by rw [(List.cons.inj (List.append_inj' h rfl).2).1]⟩
    · have hslash : '/' ∉ [c] := by simpa using Ne.symm hc
      obtain ⟨ys, s', hcs, hall⟩ := segments_append hslash cs
      rw [h] at hall
      obtain ⟨rfl, hs⟩ := List.append_inj' hall rfl
      obtain ⟨before, rfl⟩ := ih hcs
      exact ⟨before, by rw [(List.cons.inj hs).1, List.append_assoc, List.cons_append]⟩

/-- The last of several segments is idle exactly if the text ends in a slash, or in a slash and a dot. -/
theorem isIdle_iff (h : segments cs = xs ++ [s]) (hxs : xs ≠ []) :
    isIdle s = true ↔ ['/'] <:+ cs ∨ ['/', '.'] <:+ cs := by
  simp only [isIdle, Bool.or_eq_true, beq_iff_eq]
  constructor
  · obtain ⟨before, rfl⟩ := exists_before h hxs
    rintro (rfl | rfl)
    · exact .inl (List.suffix_append before _)
    · exact .inr (List.suffix_append before _)
  · rintro (⟨before, rfl⟩ | ⟨before, rfl⟩)
    · rw [segments_append_slash] at h
      exact .inl (List.cons.inj (List.append_inj' h rfl).2).1.symm
    · rw [segments_append_slash] at h
      exact .inr (List.cons.inj (List.append_inj' h rfl).2).1.symm

/-- What a path starts from depends on its first segment, and on whether another one follows. -/
theorem leading_concat (x : List Char) (xs : List (List Char)) (s t : List Char) :
    leading (x :: xs ++ [s]) = leading (x :: xs ++ [t]) := by
  match x, xs with
  | [], [] => rfl
  | [], _ :: _ => rfl
  | c :: cs, xs =>
    simp only [List.cons_append]
    by_cases hdot : c :: cs = ['.']
    · rw [hdot]
      rfl
    · rw [leading, leading] <;> simp [hdot]

theorem leading_cons (hs : isIdle s = false) (ss : List (List Char)) : leading (s :: ss) = [] := by
  simp only [isIdle, Bool.or_eq_false_iff, beq_eq_false_iff_ne] at hs
  rw [leading] <;> simp [hs.1, hs.2]

/-- A single segment at which a key can be kept names something, and has no slash. -/
theorem isIdle_of_single (h : p.check = .ok ()) (hsegments : segments p.text.toList = [s]) :
    isIdle s = false ∧ ¬ p.EndsIdle := by
  obtain ⟨name, hlast⟩ := check_eq_ok.mp h
  constructor
  · rw [components_eq, hsegments] at hlast
    by_contra hidle
    rw [Bool.not_eq_false, isIdle, Bool.or_eq_true, beq_iff_eq, beq_iff_eq] at hidle
    rcases hidle with rfl | rfl <;> cases hlast
  · have htext : '/' ∉ p.text.toList := by
      have hjoin := joinSegments_segments p.text.toList
      rw [hsegments, joinSegments, List.intercalate_singleton] at hjoin
      rw [← hjoin]
      exact notMem_of_mem_segments (hsegments ▸ List.mem_singleton_self s)
    rintro (hend | hend)
    · exact htext (hend.subset List.mem_cons_self)
    · exact htext (hend.subset List.mem_cons_self)

/-- The last segments of the paths of both halves, the first of which is idle exactly if its path ends so. -/
theorem exists_segments (h : p.check = .ok ()) :
    ∃ xs s, segments p.text.toList = xs ++ [s] ∧
      segments p.publicKey.text.toList = xs ++ [s ++ ".pub".toList] ∧
      (isIdle s = true ↔ p.EndsIdle) ∧ leading (xs ++ [s ++ ".pub".toList]) = leading (xs ++ [s]) := by
  obtain ⟨xs, s, hsegments, hpublic⟩ := p.segments_publicKey
  refine ⟨xs, s, hsegments, hpublic, ?_⟩
  cases xs with
  | nil =>
    obtain ⟨hidle, hend⟩ := isIdle_of_single h hsegments
    refine ⟨by simp [hidle, hend], ?_⟩
    rw [List.nil_append, List.nil_append, leading_cons hidle, leading_cons (isIdle_publicKey s)]
  | cons x xs => exact ⟨isIdle_iff hsegments (List.cons_ne_nil x xs), leading_concat x xs _ _⟩

theorem ofSegment_publicKey (s : List Char) :
    Component.ofSegment (s ++ ".pub".toList) = .name (String.ofList s ++ ".pub") := by
  have hname : s ++ ".pub".toList ≠ ['.', '.'] := by
    intro h
    have hlength := congrArg List.length h
    simp at hlength
  rw [Component.ofSegment, if_neg hname, String.ofList_append, String.ofList_toList]

/-- The components of a path with a last segment, and of the path with an ending. -/
theorem components_concat (hsegments : segments p.text.toList = xs ++ [s]) :
    p.components = leading (xs ++ [s]) ++ (xs.filter fun s => !isIdle s).map Component.ofSegment ++
      if isIdle s then [] else [Component.ofSegment s] := by
  rw [components_eq, hsegments]
  cases hs : isIdle s <;> simp [hs]

theorem isIdle_of_mem {name : String} (h : .name name ∈ p.components) : isIdle name.toList = false := by
  rw [components_eq, List.mem_append] at h
  rcases h with h | h
  · unfold leading at h
    split at h <;> simp at h
  · obtain ⟨s, hs, hname⟩ := List.mem_map.mp h
    rw [Component.ofSegment] at hname
    split_ifs at hname
    obtain rfl := Component.name.inj hname
    simpa using (List.mem_filter.mp hs).2

/-- The components of the paths of both halves differ in the last one, unless the first path ends idle. Then
the ending of the second one is a component of its own. -/
theorem components_publicKey (h : p.check = .ok ()) :
    ∃ init name, isIdle name.toList = false ∧ p.components = init ++ [.name name] ∧
      (¬ p.EndsIdle → p.publicKey.components = init ++ [.name (name ++ ".pub")]) ∧
      (p.EndsIdle → ∃ dot, isIdle dot.toList = true ∧
        p.publicKey.components = p.components ++ [.name (dot ++ ".pub")]) := by
  obtain ⟨xs, s, hsegments, hpublic, hidle, hleading⟩ := exists_segments h
  obtain ⟨name, hlast⟩ := check_eq_ok.mp h
  have hown := components_concat hsegments
  have hends := components_concat hpublic
  rw [isIdle_publicKey, ofSegment_publicKey, hleading] at hends
  obtain ⟨init, hinit⟩ := List.getLast?_eq_some_iff.mp hlast
  refine ⟨init, name, isIdle_of_mem (List.mem_of_getLast? hlast), hinit, fun hend => ?_, fun hend => ?_⟩
  · rw [if_neg (mt hidle.mp hend), hinit] at hown
    obtain ⟨rfl, hname⟩ := List.append_inj' hown rfl
    rw [Component.ofSegment] at hname
    split_ifs at hname
    · cases hname
    · rw [Component.name.inj (List.cons.inj hname).1, hends]
      rfl
  · rw [if_pos (hidle.mpr hend), List.append_nil] at hown
    exact ⟨String.ofList s, by simpa using hidle.mpr hend, by rw [hends, hown]; rfl⟩

theorem displayName_of_components {init : List Component} {name : String}
    (h : p.components = init ++ [.name name]) : p.displayName = name ∧ p.fileName? = some name := by
  simp [displayName, fileName?, h, Component.text]

theorem sharesParent_iff {init init' : List Component} {name name' : String}
    (h : p.components = init ++ [.name name]) (h' : q.components = init' ++ [.name name']) :
    p.SharesParent q ↔ init' = init := by
  obtain ⟨d, hd⟩ := exists_parent? (show p.components.getLast? = some (.name name) by simp [h])
  obtain ⟨e, he⟩ := exists_parent? (show q.components.getLast? = some (.name name') by simp [h'])
  have hcomponents := components_parent? hd
  have hcomponents' := components_parent? he
  rw [h, List.dropLast_concat] at hcomponents
  rw [h', List.dropLast_concat] at hcomponents'
  simp [SharesParent, hd, he, hcomponents, hcomponents']

/-- The path of a public half leads next to the path of the private half, under its name and an ending,
exactly if that path does not end idle. Otherwise it leads below it. -/
theorem publicKey_beside (p : Path) (h : p.check = .ok ()) :
    p.publicKey.check = .ok () ∧
      (p.SharesParent p.publicKey ↔ ¬ p.EndsIdle) ∧
      (p.publicKey.fileName? = p.fileName?.map (· ++ ".pub") ↔ ¬ p.EndsIdle) ∧
      (p.publicKey.displayName = p.displayName ++ ".pub" ↔ ¬ p.EndsIdle) ∧
      (p.EndsIdle → ∃ name, p.publicKey.components = p.components ++ [.name name]) := by
  obtain ⟨init, name, hname, hcomponents, hbeside, hbelow⟩ := components_publicKey h
  obtain ⟨hdisplay, hfile⟩ := displayName_of_components hcomponents
  refine ⟨p.check_publicKey, ?_⟩
  by_cases hend : p.EndsIdle
  · obtain ⟨dot, hdot, hpublic⟩ := hbelow hend
    obtain ⟨hdisplay', hfile'⟩ := displayName_of_components hpublic
    have hne : dot ≠ name := by
      rintro rfl
      rw [hdot] at hname
      cases hname
    have hparent : ¬ p.SharesParent p.publicKey := by
      rw [sharesParent_iff hcomponents hpublic, hcomponents]
      simp
    rw [hdisplay, hdisplay', hfile, hfile']
    exact ⟨by simp [hend, hparent], by simp [hend, hne], by simp [hend, hne], fun _ => ⟨_, hpublic⟩⟩
  · have hpublic := hbeside hend
    obtain ⟨hdisplay', hfile'⟩ := displayName_of_components hpublic
    rw [sharesParent_iff hcomponents hpublic, hdisplay, hdisplay', hfile, hfile']
    simp [hend]

theorem publicKey_beside_nested :
    (Path.mk "./keys//.././root.d").check = .ok () ∧
      (Path.mk "./keys//.././root.d").SharesParent ⟨"./keys//.././root.d.pub"⟩ ∧
      (Path.mk "./keys//.././root.d.pub").displayName = "root.d.pub" := by
  have hcheck : (Path.mk "./keys//.././root.d").check = .ok () := by decide
  have hend : ¬ (Path.mk "./keys//.././root.d").EndsIdle := by decide
  obtain ⟨-, hparent, -, hdisplay, -⟩ := publicKey_beside _ hcheck
  exact ⟨hcheck, hparent.mpr hend, hdisplay.mpr hend⟩

/-- A slash at the end of a path gives the public half a place below it. -/
theorem publicKey_beside_slash :
    ¬ ∀ p : Path, p.check = .ok () → p.SharesParent p.publicKey ∧
      p.publicKey.fileName? = p.fileName?.map (· ++ ".pub") ∧ p.publicKey.check = .ok () ∧
        p.publicKey.displayName = p.displayName ++ ".pub" := by
  intro hall
  obtain ⟨-, hname, -⟩ := hall ⟨"k/"⟩ (by decide)
  exact absurd hname (by decide)

end KeyCustody.Path
