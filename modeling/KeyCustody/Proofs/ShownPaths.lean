import KeyCustody.Password
import KeyCustody.Proofs.Siblings
/-! # Paths as they are shown

Users are shown the last component of a path, or the components that follow those of a base directory. Both
are read off components, so that what is shown depends neither on the directories before it nor on idle
segments. Prompts and the failures of paths show the last component only. -/

namespace KeyCustody.Path

variable {p q base : Path} {cs : List Char} {ss : List (List Char)} {s : List Char} {r : List Component}

/-! ## Named segments -/

theorem named_append_slash (cs ds : List Char) : named (cs ++ '/' :: ds) = named cs ++ named ds := by
  rw [named, segments_append_slash, List.filter_append]
  rfl

theorem notMem_of_mem_named (h : s ∈ named cs) : '/' ∉ s :=
  notMem_of_mem_segments (List.mem_filter.mp h).1

theorem text_ofSegment (s : List Char) : (Component.ofSegment s).text = String.ofList s := by
  rw [Component.ofSegment]
  split_ifs with hs
  · rw [hs]
    rfl
  · rfl

theorem ofSegment_ne_root (s : List Char) : Component.ofSegment s ≠ .root := by
  rw [Component.ofSegment]
  split_ifs <;> simp

theorem ofSegment_ne_here (s : List Char) : Component.ofSegment s ≠ .here := by
  rw [Component.ofSegment]
  split_ifs <;> simp

theorem root_notMem_named (ss : List (List Char)) : .root ∉ ss.map Component.ofSegment := by
  rw [List.mem_map]
  rintro ⟨s, -, hs⟩
  exact ofSegment_ne_root s hs

theorem here_notMem_named (ss : List (List Char)) : .here ∉ ss.map Component.ofSegment := by
  rw [List.mem_map]
  rintro ⟨s, -, hs⟩
  exact ofSegment_ne_here s hs

/-! ## Components -/

theorem components_of_isAbsolute (h : p.isAbsolute = true) :
    p.components = .root :: (named p.text.toList).map Component.ofSegment := by
  rw [isAbsolute, beq_iff_eq, List.head?_eq_some_iff] at h
  obtain ⟨body, hbody⟩ := h
  rw [components, hbody, ← List.nil_append ('/' :: body), named_append_slash]
  rfl

/-- A path is absolute exactly if the root is one of its components. -/
theorem isAbsolute_iff : p.isAbsolute = true ↔ .root ∈ p.components := by
  constructor
  · intro h
    rw [components_of_isAbsolute h]
    exact List.mem_cons_self
  · intro h
    unfold components at h
    rw [isAbsolute]
    generalize p.text.toList = cs at h ⊢
    revert h
    fun_cases split cs with
    | case1 cs => exact fun _ => rfl
    | case2 => exact fun h => absurd h (by decide)
    | case3 cs =>
      intro h
      exact absurd ((List.mem_cons.mp h).resolve_left (by decide)) (root_notMem_named _)
    | case4 cs => exact fun h => absurd h (root_notMem_named _)

theorem components_of_notMem (hroot : .root ∉ p.components) (hhere : .here ∉ p.components) :
    p.components = (named p.text.toList).map Component.ofSegment := by
  rw [components_eq] at hroot hhere ⊢
  have hleading : leading (segments p.text.toList) = [] := by
    unfold leading at hroot hhere ⊢
    split
    next h => simp [h] at hroot
    next h => simp [h] at hhere
    next => rfl
  rw [hleading]
  rfl

theorem components_eq_nil_iff : p.components = [] ↔ p.text = "" := by
  constructor
  · intro h
    rw [components_eq, List.append_eq_nil_iff, List.map_eq_nil_iff, List.filter_eq_nil_iff] at h
    obtain ⟨hleading, hidle⟩ := h
    have htext := joinSegments_segments p.text.toList
    obtain ⟨s, rest, hsegments⟩ := List.exists_cons_of_ne_nil (segments_ne_nil p.text.toList)
    have hs := hidle s (hsegments ▸ List.mem_cons_self)
    rw [hsegments] at htext hleading
    rw [Bool.not_eq_true, Bool.not_eq_false', isIdle, Bool.or_eq_true, beq_iff_eq, beq_iff_eq] at hs
    rcases hs with rfl | rfl
    · cases rest with
      | nil => exact String.toList_eq_nil_iff.mp htext.symm
      | cons s' rest => cases hleading
    · cases hleading
  · intro h
    rw [components, h]
    rfl

/-! ## Paths below a directory -/

theorem join_chars (hbase : base.isAbsolute = true) (hp : p.isAbsolute = false) :
    (base.join p).isAbsolute = true ∧ ∃ before, named before = named base.text.toList ∧
      (base.join p).text.toList = before ++ '/' :: p.text.toList := by
  rw [isAbsolute, beq_iff_eq] at hbase
  have hempty : base.text ≠ "" := by
    intro htext
    rw [htext] at hbase
    cases hbase
  unfold join
  rw [hp, if_neg Bool.false_ne_true]
  by_cases hslash : base.text.toList.getLast? = some '/'
  · rw [if_pos (.inr hslash)]
    obtain ⟨before, hbefore⟩ := List.getLast?_eq_some_iff.mp hslash
    refine ⟨by simp [isAbsolute, List.head?_append, hbase], before, ?_, ?_⟩
    · rw [hbefore, named_append_slash]
      exact (List.append_nil _).symm
    · rw [String.toList_append, hbefore, List.append_assoc, List.singleton_append]
  · rw [if_neg (not_or.mpr ⟨hempty, hslash⟩)]
    exact ⟨by simp [isAbsolute, List.head?_append, hbase], base.text.toList, rfl, by simp⟩

/-- The components of a path below a directory are those of the directory and those of the path. -/
theorem components_join (hbase : base.isAbsolute = true) (hroot : .root ∉ p.components)
    (hhere : .here ∉ p.components) : (base.join p).components = base.components ++ p.components := by
  have hp : p.isAbsolute = false := Bool.eq_false_iff.mpr (mt isAbsolute_iff.mp hroot)
  obtain ⟨hjoin, before, hnamed, htext⟩ := join_chars hbase hp
  rw [components_of_isAbsolute hjoin, htext, named_append_slash, hnamed, List.map_append,
    components_of_isAbsolute hbase, components_of_notMem hroot hhere, List.cons_append]

/-! ## What is left of a path -/

theorem dropNamed_suffix (count : Nat) (ss : List (List Char)) : dropNamed count ss <:+ ss := by
  fun_induction dropNamed count ss with
  | case1 ss => exact List.suffix_refl ss
  | case2 => exact List.suffix_refl []
  | case3 count s ss hs ih => exact ih.trans (List.suffix_cons s ss)
  | case4 count s ss hs ih => exact ih.trans (List.suffix_cons s ss)

theorem filter_dropNamed (count : Nat) (ss : List (List Char)) :
    (dropNamed count ss).filter (fun s => !isIdle s) = (ss.filter fun s => !isIdle s).drop count := by
  fun_induction dropNamed count ss with
  | case1 ss => rfl
  | case2 => rfl
  | case3 count s ss hs ih => rw [ih, List.filter_cons_of_neg (by simp [hs])]
  | case4 count s ss hs ih => rw [ih, List.filter_cons_of_pos (by simpa using hs), List.drop_succ_cons]

theorem trimEnd_cons (hs : isIdle s = false) (ss : List (List Char)) :
    trimEnd (s :: ss) = s :: trimEnd ss := by
  have hlast : [s].dropWhile isIdle = [s] := List.dropWhile_cons_of_neg (by simp [hs])
  rw [trimEnd, List.reverse_cons, List.dropWhile_append, hlast, trimEnd]
  split_ifs with hempty
  · rw [List.isEmpty_iff.mp hempty]
    rfl
  · rw [List.reverse_append, List.reverse_singleton, List.singleton_append]

/-- The components of a text of segments, without the idle ones around them. -/
theorem components_trimmed (h : ∀ s ∈ ss, '/' ∉ s) :
    (Path.mk (String.ofList (joinSegments (trimEnd (ss.dropWhile isIdle))))).components =
      (ss.filter fun s => !isIdle s).map Component.ofSegment := by
  have hhead := List.head?_dropWhile_not isIdle ss
  have hslash : ∀ s ∈ trimEnd (ss.dropWhile isIdle), '/' ∉ s := fun s hs =>
    h s ((List.dropWhile_suffix isIdle).subset ((trimEnd_isPrefix _).subset hs))
  rw [← filter_dropWhile]
  generalize ss.dropWhile isIdle = kept at hhead hslash ⊢
  cases kept with
  | nil => rfl
  | cons s kept =>
    have hs : isIdle s = false := by simpa using hhead
    rw [← filter_trimEnd, components_eq, String.toList_ofList]
    rw [trimEnd_cons hs] at hslash ⊢
    rw [segments_joinSegments (List.cons_ne_nil _ _) hslash, leading_cons hs, List.nil_append]

theorem isAbsolute_of_append (hbase : base.isAbsolute = true) (h : p.components = base.components ++ r) :
    p.isAbsolute = true := by
  rw [isAbsolute_iff, h]
  exact List.mem_append_left r (isAbsolute_iff.mp hbase)

theorem named_of_append (hbase : base.isAbsolute = true) (h : p.components = base.components ++ r) :
    (named p.text.toList).map Component.ofSegment =
      (named base.text.toList).map Component.ofSegment ++ r := by
  rw [components_of_isAbsolute (isAbsolute_of_append hbase h), components_of_isAbsolute hbase,
    List.cons_append] at h
  exact (List.cons.inj h).2

/-- What is left of a path is put together from the segments after those of the base. -/
theorem relativeTo?_eq_some {body : List Char} (hbody : p.text.toList = '/' :: body)
    (hbase : base.isAbsolute = true) (h : p.components = base.components ++ r) :
    p.relativeTo? base = some ⟨String.ofList (joinSegments (trimEnd
      ((dropNamed (named base.text.toList).length (segments body)).dropWhile isIdle)))⟩ := by
  have htaken := components_of_isAbsolute hbase
  have hcount : base.components.length - Start.root.components.length =
      (named base.text.toList).length := by
    simp [htaken, Start.components]
  have hprefix : base.components.isPrefixOf p.components = true :=
    List.isPrefixOf_iff_prefix.mpr ⟨r, h.symm⟩
  unfold relativeTo?
  rw [hbody, split]
  simp only [if_neg (show base.components ≠ [] from htaken ▸ List.cons_ne_nil _ _), hprefix, hcount]
  rfl

/-- A path that begins with the components of an absolute one leaves the other components. -/
theorem exists_relativeTo? (hbase : base.isAbsolute = true) (h : p.components = base.components ++ r) :
    ∃ rest, p.relativeTo? base = some rest ∧ rest.components = r := by
  obtain ⟨body, hbody⟩ := List.head?_eq_some_iff.mp (beq_iff_eq.mp (isAbsolute_of_append hbase h))
  have hr : r = ((named p.text.toList).drop (named base.text.toList).length).map Component.ofSegment := by
    rw [List.map_drop, named_of_append hbase h, List.drop_left' (List.length_map _)]
  have hslash : ∀ s ∈ dropNamed (named base.text.toList).length (segments body), '/' ∉ s :=
    fun s hs => notMem_of_mem_segments ((dropNamed_suffix _ _).subset hs)
  refine ⟨_, relativeTo?_eq_some hbody hbase h, ?_⟩
  rw [components_trimmed hslash, filter_dropNamed, hr, hbody, ← List.nil_append ('/' :: body),
    named_append_slash]
  rfl

theorem relativeTo?_eq_none (hbase : base.isAbsolute = true)
    (h : ∀ r, p.components ≠ base.components ++ r) : p.relativeTo? base = none := by
  have htaken : base.components ≠ [] := List.ne_nil_of_mem (isAbsolute_iff.mp hbase)
  have hprefix : ¬ base.components.isPrefixOf p.components = true := by
    rw [List.isPrefixOf_iff_prefix]
    rintro ⟨r, hr⟩
    exact h r hr.symm
  unfold relativeTo?
  simp only [if_neg htaken, if_neg hprefix]

/-- The base itself and what does not lie below it are shown by their last component. -/
theorem relativeDisplay_eq_displayName (hbase : base.isAbsolute = true) (hp : p.isAbsolute = true)
    (h : ∀ r, r ≠ [] → p.components ≠ base.components ++ r) :
    p.relativeDisplay base = p.displayName := by
  simp only [relativeDisplay, hp]
  by_cases hsame : p.components = base.components ++ []
  · obtain ⟨rest, hrest, hcomponents⟩ := exists_relativeTo? hbase hsame
    simp [hrest, components_eq_nil_iff.mp hcomponents]
  · have hnone := relativeTo?_eq_none hbase fun r hr =>
      (eq_or_ne r []).elim (fun hnil => hsame (hnil ▸ hr)) fun hne => h r hne hr
    simp [hnone]

/-- Only the last component of the root has a slash. -/
theorem slash_mem_displayName (hp : p.isAbsolute = true) :
    '/' ∈ p.displayName.toList ↔ p.components = [.root] := by
  rw [displayName, components_of_isAbsolute hp]
  rcases List.eq_nil_or_concat (named p.text.toList) with hnamed | ⟨init, s, hnamed⟩
  · simp [hnamed, Component.text]
  · rw [List.concat_eq_append] at hnamed
    have hs : '/' ∉ s := notMem_of_mem_named (hnamed ▸ List.mem_append_right init List.mem_cons_self)
    simp [hnamed, List.getLast?_cons, text_ofSegment, hs]

/-- A path below the base is shown by the components that follow those of the base. -/
theorem components_relativeDisplay (hbase : base.isAbsolute = true) (hr : r ≠ [])
    (h : p.components = base.components ++ r) : (Path.mk (p.relativeDisplay base)).components = r := by
  obtain ⟨rest, hrest, hcomponents⟩ := exists_relativeTo? hbase h
  have hne : rest.text ≠ "" := fun htext => hr (hcomponents ▸ components_eq_nil_iff.mpr htext)
  simp only [relativeDisplay, isAbsolute_of_append hbase h, hrest, if_neg hne]
  exact hcomponents

/-- A path is shown as it is if it is relative, by its components below a base directory if there are any, and
otherwise by its last component. -/
theorem relativeDisplay_cases (p base : Path) (hbase : base.isAbsolute = true) :
    (p.isAbsolute = false → p.relativeDisplay base = p.text) ∧
      (∀ r, r ≠ [] → p.components = base.components ++ r →
        (Path.mk (p.relativeDisplay base)).isAbsolute = false ∧
          (Path.mk (p.relativeDisplay base)).components = r ∧
          (base.join ⟨p.relativeDisplay base⟩).components = p.components) ∧
      (p.isAbsolute = true → (∀ r, r ≠ [] → p.components ≠ base.components ++ r) →
        ∃ last, p.components.getLast? = some last ∧ p.relativeDisplay base = last.text ∧
          ('/' ∈ (p.relativeDisplay base).toList ↔ p.components = [.root])) := by
  refine ⟨fun hp => ?_, fun r hr h => ?_, fun hp h => ?_⟩
  · rw [relativeDisplay, hp]
    rfl
  · have hshown := components_relativeDisplay hbase hr h
    have hmem : ∀ {x}, x ∈ r → x ∈ (named p.text.toList).map Component.ofSegment := by
      rw [named_of_append hbase h]
      exact List.mem_append_right _
    have hroot : .root ∉ (Path.mk (p.relativeDisplay base)).components := fun hx =>
      root_notMem_named _ (hmem (hshown ▸ hx))
    have hhere : .here ∉ (Path.mk (p.relativeDisplay base)).components := fun hx =>
      here_notMem_named _ (hmem (hshown ▸ hx))
    refine ⟨Bool.eq_false_iff.mpr (mt isAbsolute_iff.mp hroot), hshown, ?_⟩
    rw [components_join hbase hroot hhere, hshown, h]
  · have hshown := relativeDisplay_eq_displayName hbase hp h
    obtain ⟨last, hlast⟩ : ∃ last, p.components.getLast? = some last := by
      rw [components_of_isAbsolute hp]
      exact ⟨_, List.getLast?_cons⟩
    refine ⟨last, hlast, ?_, ?_⟩
    · rw [hshown, displayName, hlast]
      rfl
    · rw [hshown, slash_mem_displayName hp]

theorem relativeDisplay_cases_home :
    (Path.mk "out//./k").relativeDisplay ⟨"/home/al/"⟩ = "out//./k" ∧
      (Path.mk ((Path.mk "/home/./al//keys/./../k/.").relativeDisplay ⟨"/home/al/"⟩)).components =
        [.name "keys", .up, .name "k"] ∧
      (Path.mk "/home/alice").relativeDisplay ⟨"/home/al/"⟩ = "alice" := by
  have hbase : (Path.mk "/home/al/").isAbsolute = true := by decide
  have halice : ¬ (Path.mk "/home/al/").components <+: (Path.mk "/home/alice").components := by decide
  obtain ⟨hrelative, -⟩ := relativeDisplay_cases ⟨"out//./k"⟩ _ hbase
  obtain ⟨-, hbelow, -⟩ := relativeDisplay_cases ⟨"/home/./al//keys/./../k/."⟩ _ hbase
  obtain ⟨-, -, hother⟩ := relativeDisplay_cases ⟨"/home/alice"⟩ _ hbase
  obtain ⟨last, hlast, hshown, -⟩ := hother (by decide) fun r _ h => halice ⟨r, h.symm⟩
  have hname : (Path.mk "/home/alice").components.getLast? = some (.name "alice") := by decide
  rw [hname] at hlast
  cases hlast
  exact ⟨hrelative (by decide), (hbelow _ (by decide) (by decide)).2.1, hshown⟩

/-! ## Messages -/

/-- What stands behind the last name of a path does not count if it is idle. -/
theorem getLast?_components_of_idle {xs ends : List (List Char)}
    (h : segments p.text.toList = xs ++ s :: ends) (hs : isIdle s = false)
    (hends : ∀ e ∈ ends, isIdle e = true) : p.components.getLast? = some (.ofSegment s) := by
  have hnone : ends.filter (fun s => !isIdle s) = [] :=
    List.filter_eq_nil_iff.mpr fun e he => by simp [hends e he]
  rw [components_eq, h, List.filter_append, List.filter_cons_of_pos (by simp [hs]), hnone]
  simp [List.getLast?_append]

/-- Slashes, and dots behind slashes, are idle segments. -/
theorem exists_idle {ends : List String} (h : ∀ e ∈ ends, e = "/" ∨ e = "/.") (cs : List Char) :
    ∃ idle, segments (cs ++ (String.join ends).toList) = segments cs ++ idle ∧
      ∀ e ∈ idle, isIdle e = true := by
  induction ends generalizing cs with
  | nil => exact ⟨[], by simp, nofun⟩
  | cons e ends ih =>
    obtain ⟨t, ht, hidle⟩ : ∃ t, segments (cs ++ e.toList) = segments cs ++ [t] ∧ isIdle t = true := by
      rcases h e List.mem_cons_self with rfl | rfl
      · exact ⟨[], segments_append_slash cs [], rfl⟩
      · exact ⟨['.'], segments_append_slash cs ['.'], rfl⟩
    obtain ⟨idle, hsegments, hall⟩ := ih (fun x hx => h x (List.mem_cons_of_mem e hx)) (cs ++ e.toList)
    refine ⟨t :: idle, ?_, List.forall_mem_cons.mpr ⟨hidle, hall⟩⟩
    rw [String.toList_join, List.flatMap_cons, ← String.toList_join, ← List.append_assoc, hsegments, ht,
      List.append_assoc, List.singleton_append]

/-- The name of a file is what is shown of its path, whatever directories stand before it and whatever idle
segments behind it. -/
theorem displayName_file {before name : String} {ends : List String}
    (hbefore : before = "" ∨ ∃ d, before = d ++ "/") (hname : IsName name)
    (hends : ∀ e ∈ ends, e = "/" ∨ e = "/.") :
    (Path.mk (before ++ name ++ String.join ends)).displayName = name := by
  obtain ⟨xs, hxs⟩ : ∃ xs, segments (before.toList ++ name.toList) = xs ++ [name.toList] := by
    rcases hbefore with rfl | ⟨d, rfl⟩
    · exact ⟨[], segments_of_notMem hname.noSlash⟩
    · refine ⟨segments d.toList, ?_⟩
      have hsplit := segments_append_slash d.toList name.toList
      rw [segments_of_notMem hname.noSlash] at hsplit
      rw [← hsplit, String.toList_append, List.append_assoc]
      rfl
  obtain ⟨idle, hsegments, hidle⟩ := exists_idle hends (before.toList ++ name.toList)
  have hwhole : segments (before ++ name ++ String.join ends).toList = xs ++ name.toList :: idle := by
    rw [String.toList_append, String.toList_append, hsegments, hxs, List.append_assoc,
      List.singleton_append]
  rw [displayName, getLast?_components_of_idle hwhole hname.isIdle_eq_false hidle, Option.map_some,
    Option.getD_some, text_ofSegment, String.ofList_toList]

theorem creationPrompt_congr (keytype : KeyType) (h : p.displayName = q.displayName) :
    Password.creationPrompt keytype p = Password.creationPrompt keytype q := by
  unfold Password.creationPrompt
  rw [h]

theorem importPrompt_congr (keytype : KeyType) (h : p.displayName = q.displayName) :
    Password.importPrompt keytype p = Password.importPrompt keytype q := by
  unfold Password.importPrompt
  rw [h]

/-- Why a path with a last component, or with none, is refused. -/
def refusal : Option Component → Failure
  | none => .emptyPath
  | some last => .namelessPath last.text

/-- A path that is refused does not end in a name, and is refused for what it ends in. -/
theorem refused_of_check (h : p.check ≠ .ok ()) :
    (∀ name, p.components.getLast? ≠ some (.name name)) ∧
      p.check = .error (refusal p.components.getLast?) := by
  have hlast : ∀ name, p.components.getLast? ≠ some (.name name) := fun name hname =>
    h (check_eq_ok.mpr ⟨name, hname⟩)
  refine ⟨hlast, ?_⟩
  unfold check
  split_ifs with htext hname
  · rw [components_eq_nil_iff.mpr htext]
    rfl
  · have hne := mt components_eq_nil_iff.mp htext
    rw [displayName, List.getLast?_eq_some_getLast hne]
    rfl
  · unfold fileName? at hname
    split at hname
    next name heq => exact absurd heq (hlast name)
    next => exact absurd rfl hname

theorem eq_of_text {x y : Component} (hx : ∀ name, x ≠ .name name) (hy : ∀ name, y ≠ .name name)
    (h : x.text = y.text) : x = y := by
  cases x with
  | name text => exact absurd rfl (hx text)
  | _ =>
    cases y with
    | name text => exact absurd rfl (hy text)
    | _ => first | rfl | exact absurd h (by decide)

theorem refusal_injective {a b : Option Component} (ha : ∀ name, a ≠ some (.name name))
    (hb : ∀ name, b ≠ some (.name name)) (h : refusal a = refusal b) : a = b := by
  cases a with
  | none =>
    cases b with
    | none => rfl
    | some y => cases h
  | some x =>
    cases b with
    | none => cases h
    | some y =>
      have hx : ∀ name, x ≠ .name name := fun name hname => ha name (congrArg some hname)
      have hy : ∀ name, y ≠ .name name := fun name hname => hb name (congrArg some hname)
      rw [eq_of_text hx hy (Failure.namelessPath.inj h)]

/-- Prompts are the same for a file name and for every path that leads to it, and the failure of a path that
is refused depends on its last component alone. -/
theorem messages_without_directories :
    (∀ (keytype : KeyType) (before name : String) (ends : List String),
      (before = "" ∨ ∃ d, before = d ++ "/") → IsName name → (∀ e ∈ ends, e = "/" ∨ e = "/.") →
        Password.creationPrompt keytype ⟨before ++ name ++ String.join ends⟩ =
            Password.creationPrompt keytype ⟨name⟩ ∧
          Password.importPrompt keytype ⟨before ++ name ++ String.join ends⟩ =
            Password.importPrompt keytype ⟨name⟩) ∧
      ∀ p q : Path, p.check ≠ .ok () → q.check ≠ .ok () →
        (p.check = q.check ↔ p.components.getLast? = q.components.getLast?) := by
  constructor
  · intro keytype before name ends hbefore hname hends
    have hshown := displayName_file hbefore hname hends
    have hnone : ∀ e ∈ ([] : List String), e = "/" ∨ e = "/." := nofun
    have hbare : (Path.mk name).displayName = name := by
      simpa [String.join] using displayName_file (.inl rfl) hname hnone
    have hsame := hshown.trans hbare.symm
    exact ⟨creationPrompt_congr keytype hsame, importPrompt_congr keytype hsame⟩
  · intro p q hp hq
    obtain ⟨hpname, hpcheck⟩ := refused_of_check hp
    obtain ⟨hqname, hqcheck⟩ := refused_of_check hq
    rw [hpcheck, hqcheck]
    exact ⟨fun h => refusal_injective hpname hqname (Except.error.inj h), fun h => by rw [h]⟩

theorem messages_without_directories_home :
    Password.creationPrompt .rsa ⟨"/home/al//" ++ "..k" ++ String.join ["/.", "/", "/"]⟩ =
        Password.creationPrompt .rsa ⟨"..k"⟩ ∧
      (Path.mk "/home/al/..").check ≠ .ok () ∧
      (Path.mk "/home/al/..").check = (Path.mk "x/.././").check := by
  obtain ⟨hprompts, hfailures⟩ := messages_without_directories
  have hname : IsName "..k" := ⟨by decide, by decide, by decide, by decide⟩
  have hup : (Path.mk "/home/al/..").check ≠ .ok () := by decide
  have hup' : (Path.mk "x/.././").check ≠ .ok () := by decide
  exact ⟨(hprompts .rsa "/home/al//" "..k" _ (.inr ⟨"/home/al/", rfl⟩) hname (by decide)).1, hup,
    (hfailures _ _ hup hup').mpr (by decide)⟩

end KeyCustody.Path
