import KeyCustody.Proofs.KeyPair
import KeyCustody.Proofs.Stored
/-! # Keys without a path

A key that is written without a path is kept where its identifier leads as a path. An identifier without
slashes leads to an entry of the current directory, one with slashes wherever its segments lead. -/

namespace KeyCustody

namespace Path

/-- A name that an entry of a directory can have. -/
structure IsName (s : String) : Prop where
  nonempty : s ≠ ""
  ne_here : s ≠ "."
  ne_up : s ≠ ".."
  noSlash : '/' ∉ s.toList

variable {ss : List (List Char)} {cs : List Char}

theorem isAbsolute_name {name : String} (hname : '/' ∉ name.toList) :
    (Path.mk name).isAbsolute = false := by
  rw [isAbsolute, beq_eq_false_iff_ne]
  exact fun hhead => hname (List.mem_of_head? hhead)

theorem segments_ne_nil (cs : List Char) : segments cs ≠ [] := by
  obtain ⟨xs, s, h, -⟩ := segments_append List.not_mem_nil cs
  simp [h]

theorem segments_append_slash (cs ds : List Char) :
    segments (cs ++ '/' :: ds) = segments cs ++ segments ds := by
  induction cs with
  | nil => rfl
  | cons c cs ih =>
    by_cases hc : c = '/'
    · subst hc
      simp [segments, ih]
    · obtain ⟨first, rest, hcs⟩ := List.exists_cons_of_ne_nil (segments_ne_nil cs)
      rw [hcs, List.cons_append] at ih
      rw [List.cons_append, segments_cons hc hcs, segments_cons hc ih, List.cons_append]

theorem notMem_of_mem_segments {s : List Char} (h : s ∈ segments cs) : '/' ∉ s := by
  induction cs generalizing s with
  | nil =>
    rw [segments, List.mem_singleton] at h
    simp [h]
  | cons c cs ih =>
    by_cases hc : c = '/'
    · subst hc
      rw [segments, List.mem_cons] at h
      rcases h with rfl | h
      · exact List.not_mem_nil
      · exact ih h
    · obtain ⟨first, rest, hcs⟩ := List.exists_cons_of_ne_nil (segments_ne_nil cs)
      rw [segments_cons hc hcs, List.mem_cons] at h
      rcases h with rfl | h
      · have hfirst : '/' ∉ first := ih (hcs ▸ List.mem_cons_self)
        simpa [hfirst] using fun h => hc h.symm
      · exact ih (hcs ▸ List.mem_cons_of_mem first h)

theorem IsName.isIdle_eq_false {s : String} (h : IsName s) : isIdle s.toList = false := by
  have hdot : s.toList ≠ ['.'] := fun hs => h.ne_here (String.toList_injective (hs.trans rfl))
  simp [isIdle, h.nonempty, hdot]

theorem dropWhile_names {names : List String} (h : ∀ s ∈ names, IsName s) :
    (names.map String.toList).dropWhile isIdle = names.map String.toList := by
  cases names with
  | nil => rfl
  | cons s names => simp [(h s List.mem_cons_self).isIdle_eq_false]

/-- Segments without slashes are the segments of their text. -/
theorem segments_joinSegments (hne : ss ≠ []) (h : ∀ s ∈ ss, '/' ∉ s) :
    segments (joinSegments ss) = ss := by
  induction ss with
  | nil => exact absurd rfl hne
  | cons s ss ih =>
    have hs := segments_of_notMem (h s List.mem_cons_self)
    cases ss with
    | nil => simpa [joinSegments] using hs
    | cons s' ss =>
      have hrest := ih (List.cons_ne_nil _ _) fun x hx => h x (List.mem_cons_of_mem s hx)
      have htext : joinSegments (s :: s' :: ss) = s ++ '/' :: joinSegments (s' :: ss) := by
        simp [joinSegments, List.intercalate_cons_cons]
      rw [htext, segments_append_slash, hs, hrest]
      rfl

end Path

/-! ## The current directory -/

namespace World

open KeyCustody.Path

variable {here : Location} {p : Path}

theorem pathOf_chars (here : Location) :
    (pathOf here).text.toList = '/' :: joinSegments (here.reverse.map String.toList) := by
  simp [pathOf, joinSegments, String.toList_intercalate]

theorem notMem_names (hhere : ∀ s ∈ here, IsName s) :
    ∀ s ∈ here.reverse.map String.toList, '/' ∉ s := by
  intro s hs
  obtain ⟨name, hname, rfl⟩ := List.mem_map.mp hs
  exact (hhere name (List.mem_reverse.mp hname)).noSlash

theorem getLast?_pathOf (hhere : ∀ s ∈ here, IsName s) (hne : here ≠ []) :
    (pathOf here).text.toList.getLast? ≠ some '/' := by
  intro hlast
  obtain ⟨cs, hcs⟩ := List.getLast?_eq_some_iff.mp hlast
  have hnames : here.reverse.map String.toList ≠ [] := by simpa using hne
  have hsegments : segments (pathOf here).text.toList = [] :: here.reverse.map String.toList := by
    rw [pathOf_chars, segments, segments_joinSegments hnames (notMem_names hhere)]
  rw [hcs, segments_append_slash] at hsegments
  cases here with
  | nil => exact hne rfl
  | cons s here =>
    have hsplit : segments cs ++ [[]] =
        ([] :: here.reverse.map String.toList) ++ [s.toList] := by
      simpa [segments] using hsegments
    have hempty := List.cons.inj (List.append_inj' hsplit rfl).2
    exact (hhere s List.mem_cons_self).nonempty (String.toList_eq_nil_iff.mp hempty.1.symm)

theorem join_eq_append (here : Location) (hp : p.isAbsolute = false) :
    ∃ start, (pathOf here).join p = ⟨start ++ p.text⟩ ∧ start.toList.head? = some '/' := by
  have hhead : (pathOf here).text.toList.head? = some '/' := by rw [pathOf_chars, List.head?_cons]
  unfold join
  rw [hp, if_neg Bool.false_ne_true]
  split_ifs
  · exact ⟨_, rfl, hhead⟩
  · refine ⟨_, rfl, ?_⟩
    rw [String.toList_append, List.head?_append, hhead]
    rfl

/-- The segments of a path below a directory are those of the directory and those of the path. -/
theorem segments_join (hhere : ∀ s ∈ here, IsName s) (hp : p.isAbsolute = false) :
    segments ((pathOf here).join p).text.toList =
      ([] :: here.reverse.map String.toList) ++ segments p.text.toList := by
  by_cases hne : here = []
  · subst hne
    simp [join, hp, pathOf, segments]
  · have hnames : here.reverse.map String.toList ≠ [] := by simpa using hne
    have hempty : (pathOf here).text ≠ "" := by simp [pathOf]
    have hslash : ¬ ((pathOf here).text = "" ∨ (pathOf here).text.toList.getLast? = some '/') :=
      not_or.mpr ⟨hempty, getLast?_pathOf hhere hne⟩
    have htext : ((pathOf here).join p).text.toList =
        '/' :: (joinSegments (here.reverse.map String.toList) ++ '/' :: p.text.toList) := by
      rw [join, hp, if_neg Bool.false_ne_true, if_neg hslash, String.toList_append,
        String.toList_append, pathOf_chars]
      simp
    rw [htext, segments, segments_append_slash, segments_joinSegments hnames (notMem_names hhere)]
    rfl

theorem parent?_join (hhere : ∀ s ∈ here, IsName s) {name : String} (hname : IsName name) :
    ((pathOf here).join ⟨name⟩).parent? = some (pathOf here) := by
  have hslash := hname.noSlash
  have hrelative := isAbsolute_name hslash
  obtain ⟨start, hjoin, hstart⟩ := join_eq_append here hrelative
  obtain ⟨body, hbody⟩ : ∃ body, ((pathOf here).join ⟨name⟩).text.toList = '/' :: body := by
    rw [hjoin, ← List.head?_eq_some_iff, String.toList_append, List.head?_append, hstart]
    rfl
  have hsegments : segments body = here.reverse.map String.toList ++ [name.toList] := by
    have hall := segments_join hhere hrelative
    rw [hbody, segments, segments_of_notMem hslash] at hall
    exact (List.cons.inj hall).2
  have htrim : trimEnd (here.reverse.map String.toList) = here.reverse.map String.toList := by
    rw [trimEnd, ← List.map_reverse, List.reverse_reverse, dropWhile_names hhere, List.map_reverse]
  have hdrop : (segments body).reverse.dropWhile isIdle = name.toList :: here.map String.toList := by
    rw [hsegments, List.reverse_concat, ← List.map_reverse, List.reverse_reverse]
    exact dropWhile_names (List.forall_mem_cons.mpr ⟨hname, hhere⟩)
  simp only [parent?, hbody, split, hdrop, Start.chars, ← List.map_reverse, htrim]
  rw [List.singleton_append, ← pathOf_chars, String.ofList_toList]

end World

namespace FileTree

open KeyCustody.Path World

variable {t : FileTree} {here l d : Location} {p : Path} {g : Target}

theorem isName_last (h : t.target here p = .ok g) (hslashes : g.slashes = false)
    (hname : g.isName = true) : IsName g.last := by
  obtain ⟨xs, hsegments, -⟩ := target_eq_ok h hslashes hname
  simp only [Target.isName, Bool.and_eq_true, bne_iff_ne] at hname
  refine ⟨hname.1.1, hname.1.2, hname.2, ?_⟩
  have hmem : g.last ∈ (Path.segments p.text.toList).map String.ofList := by
    rw [← segments_eq_ok hsegments]
    exact List.mem_append_right xs List.mem_cons_self
  obtain ⟨s, hs, hlast⟩ := List.mem_map.mp hmem
  rw [← hlast, String.toList_ofList]
  exact notMem_of_mem_segments hs

theorem follow_names {names ys : List String} (hnames : ∀ s ∈ names, IsName s) (hys : ys ≠ [])
    (h : t.follow l (names ++ ys) = .ok d) : t.follow (names.reverse ++ l) ys = .ok d := by
  induction names generalizing l with
  | nil => exact h
  | cons s names ih =>
    obtain ⟨hempty, hdot, hdots, -⟩ := hnames s List.mem_cons_self
    rw [List.cons_append, follow, if_neg (by tauto), if_neg hdots] at h
    by_cases hlong : s.utf8ByteSize > maxName
    · rw [if_pos hlong] at h
      cases h
    rw [if_neg hlong] at h
    cases hs : t.lookup (s :: l) with
    | none => rw [hs] at h; cases h
    | some e =>
      rw [hs] at h
      cases e with
      | directory =>
        rw [List.reverse_cons, List.append_assoc]
        exact ih (fun x hx => hnames x (List.mem_cons_of_mem s hx)) h
      | file b => simp [hys] at h

/-- A path that can be followed at the end of another one can be followed by itself. -/
theorem segments_of_append {start : String} {ss : List String}
    (h : segments ⟨start ++ p.text⟩ = .ok ss) (hne : p.text ≠ "") :
    segments p = .ok ((Path.segments p.text.toList).map String.ofList) := by
  unfold segments at h ⊢
  split_ifs at h with hzero hempty hlong
  rw [if_neg, if_neg hne, if_neg]
  · simp only [String.utf8ByteSize_append] at hlong
    omega
  · intro hmem
    exact hzero (by simp [hmem])

/-- A path of segments names the last one of them in the directory that the others lead to. -/
theorem target_of_segments {xs : List String} {name : String} (hs : segments p = .ok (xs ++ [name]))
    (hname : name ≠ "") (h : t.follow (origin here p) (xs ++ [""]) = .ok d) :
    t.target here p = .ok ⟨d, name, false⟩ := by
  unfold target
  rw [hs]
  simp [bind, Except.bind, hname, h, pure, Except.pure]

/-- A path below the current directory names what the path itself does. -/
theorem target_join (hhere : ∀ s ∈ here, IsName s) (h : t.target here ((pathOf here).join p) = .ok g)
    (hslashes : g.slashes = false) (hname : g.isName = true) : t.target here p = .ok g := by
  cases hp : p.isAbsolute with
  | true => rwa [join, if_pos hp] at h
  | false =>
    obtain ⟨xs, hsegments, hd⟩ := target_eq_ok h hslashes hname
    obtain ⟨start, hjoin, hstart⟩ : ∃ start, (pathOf here).join p = ⟨start ++ p.text⟩ ∧ _ :=
      join_eq_append here hp
    obtain ⟨ys, s, hys, -⟩ := Path.segments_append List.not_mem_nil p.text.toList
    have hsplit : xs ++ [g.last] =
        ("" :: here.reverse ++ ys.map String.ofList) ++ [String.ofList s] := by
      rw [segments_eq_ok hsegments, World.segments_join hhere hp, hys]
      simp [Function.comp_def]
    obtain ⟨rfl, hlast⟩ := List.append_inj' hsplit rfl
    have hg : g.last = String.ofList s := (List.cons.inj hlast).1
    have hname' : g.last ≠ "" := (isName_last h hslashes hname).nonempty
    have hne : p.text ≠ "" := by
      intro hempty
      rw [hempty] at hys
      have hs := congrArg List.getLast? hys
      rw [List.getLast?_concat] at hs
      exact hname' (hg.trans (congrArg String.ofList (Option.some.inj hs).symm))
    have hown : segments p = .ok (ys.map String.ofList ++ [g.last]) := by
      rw [hjoin] at hsegments
      rw [segments_of_append hsegments hne, hys, hg]
      simp
    have horigin : origin here ((pathOf here).join p) = [] := by
      simp [origin, isAbsolute, hjoin, List.head?_append, hstart]
    have hfollow : t.follow [] (here.reverse ++ (ys.map String.ofList ++ [""])) = .ok g.directory := by
      rw [horigin] at hd
      simpa [follow] using hd
    have hdirectory := follow_names (fun s hs => hhere s (List.mem_reverse.mp hs)) (by simp) hfollow
    rw [List.reverse_reverse, List.append_nil] at hdirectory
    have horigin' : origin here p = here := by
      rw [origin, hp, if_neg Bool.false_ne_true]
    rw [target_of_segments hown hname' (by rw [horigin']; exact hdirectory), ← hslashes]

theorem target_of_notMem (h : t.target here p = .ok g) (hslashes : g.slashes = false)
    (hname : g.isName = true) (hp : '/' ∉ p.text.toList) : g.last = p.text ∧ g.directory = here := by
  obtain ⟨xs, hsegments, hd⟩ := target_eq_ok h hslashes hname
  have hall := segments_eq_ok hsegments
  rw [segments_of_notMem hp, List.map_singleton, String.ofList_toList] at hall
  obtain ⟨rfl, hlast⟩ := List.append_inj' (hall.trans (List.nil_append [p.text]).symm) rfl
  have hrelative := isAbsolute_name hp
  exact ⟨(List.cons.inj hlast).1, by simpa [follow, origin, hrelative] using hd.symm⟩

end FileTree

namespace Custodian

open World

variable {c : Custodian} {k : KeyPair} {path written : Path} {password : String} {w w' : World}

/-- A write that succeeds puts the two halves next to each other where the path leads, and changes no
other file. -/
theorem stored_files (h : (c.privatePayload k password >>= store k path).runIn w = (.ok written, w')) :
    ∃ g payload w₁, w'.tree.target w.here path = .ok g ∧ g.isName = true ∧ g.slashes = false ∧
      (c.privatePayload k password).runIn w = (.ok payload, w₁) ∧
      w'.tree.file? g.location = some (Text.utf8 payload) ∧
      w'.tree.file? ((g.last ++ ".pub") :: g.directory) = some (Text.utf8 (publicPayload k)) ∧
      ∀ l, l ≠ g.location → l ≠ (g.last ++ ".pub") :: g.directory →
        w'.tree.file? l = w.tree.file? l := by
  obtain ⟨payload, w₁, g, hpayload, hstored⟩ := stored_of_run h
  obtain ⟨htarget, hname, hslashes, -, hprivate⟩ := hstored.privateHalf
  rw [hstored.here] at htarget
  exact ⟨g, payload, w₁, htarget, hname, hslashes, hpayload, hprivate, hstored.publicHalf.file,
    hstored.other⟩

/-- A key that is written without a path is kept where its identifier leads as a path from the current
directory: the private half there, the public half next to it. No other file changes. If the identifier
has no slash, it is a name in the current directory. -/
theorem write_here (hhere : ∀ s ∈ w.here, Path.IsName s)
    (h : (c.write k none (some password)).runIn w = (.ok written, w')) :
    written = (pathOf w.here).join ⟨k.keyid⟩ ∧
      ∃ g payload w₁, w'.tree.target w.here ⟨k.keyid⟩ = .ok g ∧
        (c.privatePayload k password).runIn w = (.ok payload, w₁) ∧
        w'.tree.file? g.location = some (Text.utf8 payload) ∧
        w'.tree.file? ((g.last ++ ".pub") :: g.directory) = some (Text.utf8 (publicPayload k)) ∧
        (∀ l, w'.tree.file? l ≠ w.tree.file? l →
          l = g.location ∨ l = (g.last ++ ".pub") :: g.directory) ∧
        ('/' ∉ k.keyid.toList ↔ g.location = k.keyid :: w.here) ∧
        ('/' ∉ k.keyid.toList → written.parent? = some (pathOf w.here)) := by
  have h := write_here_ok h
  obtain ⟨rfl, -⟩ := stored_ok h
  obtain ⟨g, payload, w₁, htarget, hname, hslashes, hpayload, hprivate, hpublic, hother⟩ := stored_files h
  have hkeyid := FileTree.target_join hhere htarget hslashes hname
  refine ⟨rfl, g, payload, w₁, hkeyid, hpayload, hprivate, hpublic, ?_, ⟨?_, ?_⟩, ?_⟩
  · intro l hl
    by_contra hnone
    rw [not_or] at hnone
    exact hl (hother l hnone.1 hnone.2)
  · intro hslash
    obtain ⟨hlast, hdirectory⟩ := FileTree.target_of_notMem hkeyid hslashes hname hslash
    rw [FileTree.Target.location, hlast, hdirectory]
  · intro hlocation
    have hlast : g.last = k.keyid := (List.cons.inj hlocation).1
    exact hlast ▸ (FileTree.isName_last hkeyid hslashes hname).noSlash
  · intro hslash
    have hlast : g.last = k.keyid := (FileTree.target_of_notMem hkeyid hslashes hname hslash).1
    exact parent?_join hhere (hlast ▸ FileTree.isName_last hkeyid hslashes hname)

def home : World := World.start ["home"] [] fun _ => 0

theorem isName_home : ∀ s ∈ home.here, Path.IsName s := by
  intro s hs
  obtain rfl : s = "home" := List.mem_singleton.mp hs
  exact ⟨by decide, by decide, by decide, by decide⟩

theorem write_here_specimen :
    ∃ written w', (default.write .specimen none (some "")).runIn home = (.ok written, w') ∧
      written.parent? = some (pathOf home.here) ∧
      ∀ l, w'.tree.file? l ≠ home.tree.file? l →
        l = ["specimen", "home"] ∨ l = ["specimen.pub", "home"] := by
  have hrun : ((default.write .specimen none (some "")).runIn home).1.toOption.isSome = true := by
    decide +kernel
  have hslash : '/' ∉ KeyPair.specimen.keyid.toList := by decide
  obtain ⟨written, w', hwrite⟩ := Action.runIn_eq_ok hrun
  obtain ⟨-, g, payload, w₁, -, -, -, -, hfiles, hlocation, hparent⟩ := write_here isName_home hwrite
  obtain ⟨hlast, hdirectory⟩ := List.cons.inj (hlocation.mp hslash)
  refine ⟨written, w', hwrite, hparent hslash, fun l hl => ?_⟩
  have hfile := hfiles l hl
  rwa [FileTree.Target.location, hlast, hdirectory] at hfile

/-- The specimen under an identifier that leads out of the current directory. -/
def stray : KeyPair := { KeyPair.specimen with keyid := "../k" }

/-- An identifier can lead a key that is written without a path out of the current directory. -/
theorem write_here_stray :
    ¬ ∀ (c : Custodian) (k : KeyPair) (password : String) (written : Path) (w w' : World),
      (∀ s ∈ w.here, Path.IsName s) → (c.write k none (some password)).runIn w = (.ok written, w') →
        written.parent? = some (pathOf w.here) ∧
          ∀ l, w'.tree.file? l ≠ w.tree.file? l →
            l = k.keyid :: w.here ∨ l = (k.keyid ++ ".pub") :: w.here := by
  intro hall
  have hrun : ((default.write stray none (some "")).runIn home).1.toOption.isSome = true := by
    decide +kernel
  have hfile : ((default.write stray none (some "")).runIn home).2.tree.file? ["k"] ≠
      home.tree.file? ["k"] := by
    decide +kernel
  obtain ⟨written, w', hwrite⟩ := Action.runIn_eq_ok hrun
  rw [hwrite] at hfile
  obtain h | h := (hall _ _ _ _ _ _ isName_home hwrite).2 _ hfile
  · exact absurd h (by decide)
  · exact absurd h (by decide)

end Custodian

end KeyCustody
