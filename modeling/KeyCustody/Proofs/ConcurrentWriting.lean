import KeyCustody.Proofs.Neighbours
import KeyCustody.Proofs.OrderlyWriting
import KeyCustody.Proofs.PlainRoundTrip
/-! # Writes to one path side by side

Any number of keys may be written to one path at the same time. Each half is replaced as a whole, and the
halves are replaced one after the other: at every moment the path of the public half leads to that of the
call that moved it there last, and the path itself to a private half of the call that moved one there last.
These are two calls if another call moved its public half between the halves of the last one. -/

namespace KeyCustody

variable {ι : Type}

/-! ## Whose files have been moved -/

section Movers

variable [DecidableEq ι] {i : ι} {xs ys : List ι}

/-- Of the calls that have moved files, the last one first, those that have moved their public halves. A call
moves that half first. -/
def publicMovers : List ι → List ι
  | [] => []
  | i :: earlier => if i ∈ earlier then publicMovers earlier else i :: publicMovers earlier

/-- Those that have moved their private halves, which they do when they have moved the public ones. -/
def privateMovers : List ι → List ι
  | [] => []
  | i :: earlier => if i ∈ earlier then i :: privateMovers earlier else privateMovers earlier

theorem publicMovers_append_of_subset (h : ∀ i ∈ xs, i ∈ ys) :
    publicMovers (xs ++ ys) = publicMovers ys := by
  induction xs with
  | nil => rfl
  | cons x xs ih =>
    rw [List.cons_append, publicMovers, if_pos, ih fun i hi => h i (List.mem_cons_of_mem x hi)]
    exact List.mem_append_right xs (h x List.mem_cons_self)

/-- If a call has moved a file among the later ones only, the last public half is of such a call. -/
theorem publicMovers_append_of_mem (hi : i ∈ xs) (hnot : i ∉ ys) :
    ∃ j rest, publicMovers (xs ++ ys) = j :: rest ∧ j ∉ ys := by
  induction xs with
  | nil => cases hi
  | cons x xs ih =>
    rw [List.cons_append, publicMovers]
    split_ifs with hx
    · refine ih ?_
      rcases List.mem_cons.mp hi with rfl | hi
      · exact (List.mem_append.mp hx).resolve_right hnot
      · exact hi
    · exact ⟨x, _, rfl, fun hmem => hx (List.mem_append_right xs hmem)⟩

/-- If every call has moved two files, the last of all was a private half. It belongs to the last public half
exactly if the calls that moved files between its own two had all moved one before them. -/
theorem exists_last_movers {moved : List ι} (hne : moved ≠ []) (hcount : ∀ i, moved.count i = 2) :
    ∃ i j between before, moved = j :: (between ++ j :: before) ∧
      (∃ rest, publicMovers moved = i :: rest) ∧ (∃ rest, privateMovers moved = j :: rest) ∧
      (i = j ↔ ∀ m ∈ between, m ∈ before) := by
  obtain ⟨j, later, rfl⟩ := List.exists_cons_of_ne_nil hne
  have hj : later.count j = 1 := by simpa using hcount j
  have hmem : j ∈ later := List.count_pos_iff.mp (by omega)
  obtain ⟨between, before, rfl⟩ := List.append_of_mem hmem
  have hnot : between.count j = 0 ∧ before.count j = 0 := by
    rw [List.count_append, List.count_cons_self] at hj
    omega
  have hbetween : j ∉ between := List.count_eq_zero.mp hnot.1
  have hbefore : j ∉ before := List.count_eq_zero.mp hnot.2
  have hpublic : publicMovers (j :: (between ++ j :: before)) = publicMovers (between ++ j :: before) :=
    if_pos hmem
  have hprivate : ∃ rest, privateMovers (j :: (between ++ j :: before)) = j :: rest := ⟨_, if_pos hmem⟩
  by_cases hall : ∀ m ∈ between, m ∈ before
  · refine ⟨j, j, between, before, rfl, ⟨publicMovers before, ?_⟩, hprivate, iff_of_true rfl hall⟩
    rw [hpublic, publicMovers_append_of_subset fun m hm => List.mem_cons_of_mem j (hall m hm),
      publicMovers, if_neg hbefore]
  · push Not at hall
    obtain ⟨m, hm, hearly⟩ := hall
    have hlate : m ∉ j :: before := by
      rw [List.mem_cons, not_or]
      exact ⟨fun heq => hbetween (heq ▸ hm), hearly⟩
    obtain ⟨i, rest, hi, hother⟩ := publicMovers_append_of_mem hm hlate
    refine ⟨i, j, between, before, rfl, ⟨rest, hpublic.trans hi⟩, hprivate, ?_⟩
    exact iff_of_false (fun heq => hother (heq ▸ List.mem_cons_self)) fun h => hearly (h m hm)

end Movers

/-! ## What has been delivered -/

/-- A file that has been delivered, and the call that delivered it. -/
abbrev Receipt (ι : Type) := ι × Delivery

def deliveredTo (p : Path) (log : List (Receipt ι)) : List (Receipt ι) :=
  log.filter fun e => e.2.path = p

theorem deliveredTo_cons (p : Path) (i : ι) (d : Delivery) (log : List (Receipt ι)) :
    deliveredTo p ((i, d) :: log) =
      if d.path = p then (i, d) :: deliveredTo p log else deliveredTo p log := by
  unfold deliveredTo
  rw [List.filter_cons]
  split_ifs <;> simp_all

variable [DecidableEq ι] {path : Path} {calls : ι → Call} {log : List (Receipt ι)}

def historyOf (i : ι) (log : List (Receipt ι)) : List Delivery :=
  (log.filter fun e => e.1 = i).map Prod.snd

theorem mem_historyOf {e : Receipt ι} (he : e ∈ log) : e.2 ∈ historyOf e.1 log := by
  simp only [historyOf, List.mem_map, List.mem_filter, decide_eq_true_eq]
  exact ⟨e, ⟨he, rfl⟩, rfl⟩

theorem historyOf_cons (i j : ι) (d : Delivery) (log : List (Receipt ι)) :
    historyOf j ((i, d) :: log) = if i = j then d :: historyOf j log else historyOf j log := by
  unfold historyOf
  rw [List.filter_cons]
  split_ifs <;> simp_all

/-- The receipt of what a call delivers in one turn, if it delivers anything. -/
def receipts (i : ι) (delivery : Option Delivery) : List (Receipt ι) :=
  delivery.toList.map fun d => (i, d)

theorem historyOf_receipts (i j : ι) (delivery : Option Delivery) (log : List (Receipt ι)) :
    historyOf j (receipts i delivery ++ log) =
      if i = j then delivery.toList ++ historyOf j log else historyOf j log := by
  cases delivery with
  | none => exact (ite_self _).symm
  | some d => exact historyOf_cons i j d log

theorem mem_movers {i : ι} : i ∈ log.map Prod.fst ↔ historyOf i log ≠ [] := by
  induction log with
  | nil => simp [historyOf]
  | cons e log ih =>
    obtain ⟨j, d⟩ := e
    rw [historyOf_cons, List.map_cons, List.mem_cons, ih]
    by_cases hij : j = i
    · simp [hij]
    · simp [hij, Ne.symm hij]

theorem count_movers (i : ι) (log : List (Receipt ι)) :
    (log.map Prod.fst).count i = (historyOf i log).length := by
  induction log with
  | nil => rfl
  | cons e log ih =>
    obtain ⟨j, d⟩ := e
    rw [historyOf_cons, List.map_cons, List.count_cons, ih]
    by_cases hij : j = i <;> simp [hij]

namespace Call.Delivered

variable {call : Call} {d : Delivery} {history : List Delivery}

theorem cons_cases (h : call.Delivered path (d :: history)) :
    (d = call.publicDelivery path ∧ history = []) ∨
      ∃ payload, call.Prepares payload ∧ d = ⟨path, Text.utf8 payload⟩ ∧
        history = [call.publicDelivery path] := by
  cases h with
  | publicHalf => exact .inl ⟨rfl, rfl⟩
  | both hpayload => exact .inr ⟨_, hpayload, rfl, rfl⟩

theorem of_cons (h : call.Delivered path (d :: history)) : call.Delivered path history := by
  obtain ⟨-, rfl⟩ | ⟨payload, -, -, rfl⟩ := h.cons_cases
  · exact .nothing
  · exact .publicHalf

theorem of_mem (h : call.Delivered path history) (hd : d ∈ history) :
    d = call.publicDelivery path ∨ ∃ payload, call.Prepares payload ∧ d = ⟨path, Text.utf8 payload⟩ := by
  induction history with
  | nil => cases hd
  | cons d' history ih =>
    rcases List.mem_cons.mp hd with rfl | hd
    · obtain ⟨heq, -⟩ | ⟨payload, hpayload, heq, -⟩ := h.cons_cases
      · exact .inl heq
      · exact .inr ⟨payload, hpayload, heq⟩
    · exact ih h.of_cons hd

theorem path_eq (h : call.Delivered path history) (hd : d ∈ history) :
    d.path = path ∨ d.path = path.publicKey := by
  obtain rfl | ⟨payload, -, rfl⟩ := h.of_mem hd
  · exact .inr rfl
  · exact .inl rfl

end Call.Delivered

theorem Path.publicKey_ne (p : Path) : p.publicKey ≠ p := by
  intro h
  have hlength := congrArg (fun q : Path => q.text.toList.length) h
  simp [Path.publicKey] at hlength

theorem movers_eq (h : ∀ i, (calls i).Delivered path (historyOf i log)) :
    publicMovers (log.map Prod.fst) = (deliveredTo path.publicKey log).map Prod.fst ∧
      privateMovers (log.map Prod.fst) = (deliveredTo path log).map Prod.fst := by
  induction log with
  | nil => exact ⟨rfl, rfl⟩
  | cons e log ih =>
    obtain ⟨i, d⟩ := e
    have hi := h i
    rw [historyOf_cons, if_pos rfl] at hi
    obtain ⟨hpublic, hprivate⟩ := ih fun j => by
      have hj := h j
      rw [historyOf_cons] at hj
      split_ifs at hj
      · exact hj.of_cons
      · exact hj
    rw [List.map_cons, publicMovers, privateMovers, deliveredTo_cons, deliveredTo_cons, hpublic, hprivate]
    obtain ⟨rfl, hhistory⟩ | ⟨payload, -, rfl, hhistory⟩ := hi.cons_cases
    · have hmem : i ∉ log.map Prod.fst := fun hmem => mem_movers.mp hmem hhistory
      have hne : ¬ ((calls i).publicDelivery path).path = path := path.publicKey_ne
      have heq : ((calls i).publicDelivery path).path = path.publicKey := rfl
      rw [if_neg hmem, if_neg hmem, if_pos heq, if_neg hne]
      exact ⟨rfl, rfl⟩
    · have hmem : i ∈ log.map Prod.fst := mem_movers.mpr (by simp [hhistory])
      have hne : ¬ path = path.publicKey := path.publicKey_ne.symm
      rw [if_pos hmem, if_pos hmem, if_pos rfl, if_neg hne]
      exact ⟨rfl, rfl⟩

/-! ## What turns preserve -/

/-- Names that a temporary file may have next to the files of both halves. -/
def Path.Apart (path : Path) (name : String) : Prop :=
  name ≠ path.lastSegment ∧ name ≠ path.publicKey.lastSegment

namespace Crowd

variable {here : Location} {first t' : FileTree} {phases : ι → Phase} {s s' : Crowd ι (Outcome Path)}

/-- Calls that write to one path, of which none has taken a turn yet. -/
def writing (first : FileTree) (path : Path) (calls : ι → Call) : Crowd ι (Outcome Path) :=
  ⟨first, fun i => (calls i).program path, []⟩

/-- What holds at every moment. -/
structure Delivering (here : Location) (path : Path) (calls : ι → Call) (log : List (Receipt ι))
    (phases : ι → Phase) (s : Crowd ι (Outcome Path)) : Prop where
  tidy : ∀ i, Tidy ((calls i).Delivered path) ((calls i).Ended path) (historyOf i log) (phases i)
    (s.programs i)
  delivered : ∀ i, (calls i).Delivered path (historyOf i log)
  own : ∀ i file contents, (phases i).held? = some (file, contents) →
    s.tree.lookup file.location = some (.file contents) ∧
      ∃ name d, file.location = name :: d ∧ path.Apart name
  apart : ∀ i j file contents file' contents', i ≠ j → (phases i).held? = some (file, contents) →
    (phases j).held? = some (file', contents') → file.location ≠ file'.location
  moved : s.moved = log.map Prod.fst
  holds : ∀ p e earlier, deliveredTo p log = e :: earlier →
    ∃ g, s.tree.Holds here p e.2.contents g

namespace Delivering

theorem start (here : Location) (first : FileTree) (path : Path) (calls : ι → Call) :
    Delivering here path calls [] (fun _ => .idle) (writing first path calls) where
  tidy i := (calls i).tidy_program path
  delivered _ := .nothing
  own := by rintro _ _ _ ⟨⟩
  apart := by rintro _ _ _ _ _ _ _ ⟨⟩
  moved := rfl
  holds := by rintro _ _ _ ⟨⟩

theorem ne_location (h : Delivering here path calls log phases s) {i : ι} {file : Temporary}
    {contents : Bytes} (hheld : (phases i).held? = some (file, contents)) {p : Path}
    (hp : p = path ∨ p = path.publicKey) {t : FileTree} {g : FileTree.Target}
    (hg : t.target here p = .ok g) : file.location ≠ g.location := by
  obtain ⟨-, name, d, hname, hprivate, hpublic⟩ := h.own i file contents hheld
  rw [hname]
  intro heq
  have hlast : name = p.lastSegment := (List.cons.inj heq).1.trans (FileTree.target_last hg)
  obtain rfl | rfl := hp
  · exact hprivate hlast
  · exact hpublic hlast

section Turn

variable {i : ι} {phase' : Phase} {delivery : Option Delivery}

theorem apart_turn (h : Delivering here path calls log phases s)
    (hturned : Turned here path.Apart s.tree t' (phases i).held? phase'.held? delivery) {j : ι} (hj : j ≠ i)
    {file file' : Temporary} {contents contents' : Bytes} (hheld : (phases j).held? = some (file, contents))
    (hheld' : phase'.held? = some (file', contents')) : file.location ≠ file'.location := by
  intro heq
  obtain ⟨-, ⟨stored, hbefore⟩ | ⟨hfree, -⟩⟩ := hturned.own file' contents' hheld'
  · exact h.apart j i _ _ _ _ hj hheld hbefore heq
  · rw [← heq, (h.own j file contents hheld).1] at hfree
    cases hfree

theorem apart_update (h : Delivering here path calls log phases s)
    (hturned : Turned here path.Apart s.tree t' (phases i).held? phase'.held? delivery) (j k : ι)
    (file : Temporary) (contents : Bytes) (file' : Temporary) (contents' : Bytes) (hjk : j ≠ k)
    (hheld : (Function.update phases i phase' j).held? = some (file, contents))
    (hheld' : (Function.update phases i phase' k).held? = some (file', contents')) :
    file.location ≠ file'.location := by
  by_cases hj : j = i
  · subst hj
    rw [Function.update_self] at hheld
    rw [Function.update_of_ne hjk.symm] at hheld'
    exact (h.apart_turn hturned hjk.symm hheld' hheld).symm
  · rw [Function.update_of_ne hj] at hheld
    by_cases hk : k = i
    · subst hk
      rw [Function.update_self] at hheld'
      exact h.apart_turn hturned hj hheld hheld'
    · rw [Function.update_of_ne hk] at hheld'
      exact h.apart j k _ _ _ _ hjk hheld hheld'

/-- Every call finds its own temporary file in its place after a turn of any other. -/
theorem own_update (h : Delivering here path calls log phases s)
    (hturned : Turned here path.Apart s.tree t' (phases i).held? phase'.held? delivery)
    (hpath : ∀ d, delivery = some d → d.path = path ∨ d.path = path.publicKey) (j : ι) (file : Temporary)
    (contents : Bytes) (hheld : (Function.update phases i phase' j).held? = some (file, contents)) :
    t'.lookup file.location = some (.file contents) ∧
      ∃ name d, file.location = name :: d ∧ path.Apart name := by
  by_cases hj : j = i
  · subst hj
    rw [Function.update_self] at hheld
    obtain ⟨hfile, ⟨stored, hbefore⟩ | ⟨-, hplace⟩⟩ := hturned.own file contents hheld
    · exact ⟨hfile, (h.own j file stored hbefore).2⟩
    · exact ⟨hfile, hplace⟩
  · rw [Function.update_of_ne hj] at hheld
    obtain ⟨hfile, hplace⟩ := h.own j file contents hheld
    refine ⟨hturned.file _ _ hfile (fun file' stored hheld' => ?_) (fun d g hd hg => ?_), hplace⟩
    · exact h.apart j i _ _ _ _ hj hheld hheld'
    · exact h.ne_location hheld (hpath d hd) hg

/-- What leads to different files of a write before a turn still does so after it, unless it is delivered. -/
theorem holds_kept (h : Delivering here path calls log phases s)
    (hturned : Turned here path.Apart s.tree t' (phases i).held? phase'.held? delivery)
    (hpath : ∀ d, delivery = some d → d.path = path ∨ d.path = path.publicKey) {p : Path}
    (hp : p = path ∨ p = path.publicKey) (hother : ∀ d, delivery = some d → d.path ≠ p)
    {contents : Bytes} {g : FileTree.Target} (hg : s.tree.Holds here p contents g) :
    t'.Holds here p contents g := by
  have htarget : t'.target here p = .ok g := FileTree.target_kept hturned.directory hg.target
  refine hg.kept hturned.directory (FileTree.file?_congr ?_)
  rw [FileTree.file?_eq_some.mp hg.file]
  refine hturned.file _ _ (FileTree.file?_eq_some.mp hg.file) (fun file stored hheld => ?_) ?_
  · exact (h.ne_location hheld hp hg.target).symm
  · intro d g' hd hg'
    obtain ⟨g'', hholds⟩ := hturned.holds d hd
    obtain rfl : g'' = g' := Except.ok.inj (hholds.target.symm.trans hg')
    have hne := hother d hd
    obtain rfl | rfl := hp <;> obtain hd' | hd' := hpath d hd <;> rw [hd'] at hne hholds hg'
    · exact absurd rfl hne
    · exact (FileTree.publicKey_location_ne_location htarget hg.slashes hg.isName hg' hholds.slashes
        hholds.isName).symm
    · exact FileTree.publicKey_location_ne_location hg' hholds.slashes hholds.isName htarget hg.slashes
        hg.isName
    · exact absurd rfl hne

/-- After a turn each path leads to what has just been delivered to it, or else to what it led to before. -/
theorem holds_turn (h : Delivering here path calls log phases s)
    (hturned : Turned here path.Apart s.tree t' (phases i).held? phase'.held? delivery)
    (hpath : ∀ d, delivery = some d → d.path = path ∨ d.path = path.publicKey) (p : Path)
    (e : Receipt ι) (earlier : List (Receipt ι))
    (he : deliveredTo p (receipts i delivery ++ log) = e :: earlier) :
    ∃ g, t'.Holds here p e.2.contents g := by
  have hkept : deliveredTo p log = e :: earlier → (∀ d, delivery = some d → d.path ≠ p) →
      ∃ g, t'.Holds here p e.2.contents g := by
    intro he hother
    obtain ⟨g, hg⟩ := h.holds p e earlier he
    have hmem : e ∈ deliveredTo p log := he ▸ List.mem_cons_self
    obtain ⟨hlog, hp⟩ : e ∈ log ∧ e.2.path = p := by simpa [deliveredTo] using hmem
    exact ⟨g, h.holds_kept hturned hpath (hp ▸ (h.delivered e.1).path_eq (mem_historyOf hlog)) hother hg⟩
  cases delivery with
  | none => exact hkept he (by rintro _ ⟨⟩)
  | some d =>
    change deliveredTo p ((i, d) :: log) = e :: earlier at he
    rw [deliveredTo_cons] at he
    split_ifs at he with hp
    · obtain ⟨rfl, -⟩ := List.cons.inj he
      exact hp ▸ hturned.holds d rfl
    · refine hkept he ?_
      rintro _ ⟨⟩
      exact hp

/-- Every turn of every call keeps the invariant. -/
theorem turn (h : Delivering here path calls log phases s) (hstep : Step here path.Apart s s') :
    ∃ log' phases', Delivering here path calls log' phases' s' := by
  obtain @⟨i, moves, t', p', hstep⟩ := hstep
  have hstored : (phases i).StoredIn s.tree := by
    intro file contents hphase
    obtain ⟨hfile, name, d, hname, -⟩ := h.own i file contents (Phase.held?_eq_some.mpr hphase)
    exact ⟨by simp [hname], hfile⟩
  obtain ⟨delivery, phase', htidy, hturned, hmoves, hallowed⟩ := (h.tidy i).turn hstored hstep
  have hpath : ∀ d, delivery = some d → d.path = path ∨ d.path = path.publicKey := fun d hd =>
    (hallowed d hd).path_eq List.mem_cons_self
  refine ⟨receipts i delivery ++ log, Function.update phases i phase', ?_, ?_, h.own_update hturned hpath,
    h.apart_update hturned, ?_, h.holds_turn hturned hpath⟩
  · intro j
    rw [historyOf_receipts]
    by_cases hj : i = j
    · subst hj
      simpa using htidy
    · simpa [hj, Function.update_of_ne (Ne.symm hj)] using h.tidy j
  · intro j
    rw [historyOf_receipts]
    split_ifs with hj
    · subst hj
      cases delivery with
      | none => exact h.delivered i
      | some d => exact hallowed d rfl
    · exact h.delivered j
  · rw [← hmoves, h.moved]
    cases delivery <;> rfl

end Turn

theorem of_reaches (h : Reaches here path.Apart (writing first path calls) s) :
    ∃ log phases, Delivering here path calls log phases s := by
  induction h with
  | refl => exact ⟨_, _, start here first path calls⟩
  | tail _ hstep ih =>
    obtain ⟨log, phases, hinv⟩ := ih
    exact hinv.turn hstep

/-! ## What is found at the paths -/

theorem read (h : Delivering here path calls log phases s) {p : Path} {i : ι} {rest : List ι}
    (hp : (deliveredTo p log).map Prod.fst = i :: rest) :
    ∃ d ∈ historyOf i log, d.path = p ∧ s.tree.read here p = .ok d.contents := by
  obtain ⟨⟨j, d⟩, earlier, heq, rfl, -⟩ := List.map_eq_cons_iff.mp hp
  have hmem : (j, d) ∈ deliveredTo p log := heq ▸ List.mem_cons_self
  obtain ⟨hlog, hpath⟩ : (j, d) ∈ log ∧ d.path = p := by simpa [deliveredTo] using hmem
  obtain ⟨g, hholds⟩ := h.holds p _ _ heq
  exact ⟨d, mem_historyOf hlog, hpath, hholds.read⟩

theorem read_public (h : Delivering here path calls log phases s) {i : ι} {rest : List ι}
    (hi : publicMovers s.moved = i :: rest) :
    s.tree.read here path.publicKey = .ok (Text.utf8 (Custodian.publicPayload (calls i).key)) := by
  rw [h.moved, (movers_eq h.delivered).1] at hi
  obtain ⟨d, hd, hpath, hread⟩ := h.read hi
  obtain rfl | ⟨payload, -, rfl⟩ := (h.delivered i).of_mem hd
  · exact hread
  · exact absurd hpath.symm path.publicKey_ne

theorem read_private (h : Delivering here path calls log phases s) {j : ι} {rest : List ι}
    (hj : privateMovers s.moved = j :: rest) :
    ∃ payload, (calls j).Prepares payload ∧ s.tree.read here path = .ok (Text.utf8 payload) := by
  rw [h.moved, (movers_eq h.delivered).2] at hj
  obtain ⟨d, hd, hpath, hread⟩ := h.read hj
  obtain rfl | ⟨payload, hpayload, rfl⟩ := (h.delivered j).of_mem hd
  · exact absurd hpath path.publicKey_ne
  · exact ⟨payload, hpayload, hread⟩

theorem ended (h : Delivering here path calls log phases s) {i : ι} {written : Path}
    (hdone : s.programs i = .done (.ok written)) :
    s.moved.count i = 2 ∧ (calls i).key.hasPrivate = true ∧ path.check = .ok () := by
  obtain ⟨-, hlength, hready⟩ := (hdone ▸ h.tidy i).ended written rfl
  rw [h.moved, count_movers]
  exact ⟨hlength, hready⟩

end Delivering

theorem privateKeyOf_prepared {c : Custodian} {k : KeyPair} {password payload : String}
    (hkind : k.keytype ≠ .rsa) (hvalid : k.validate = .ok ()) (hprivate : k.hasPrivate = true)
    (hmarks : password = "" → k.marks ≠ 4) (hpayload : c.Prepares k password payload) (scheme : Scheme) :
    c.privateKeyOf payload k.keytype password scheme = .ok (c.reread k) := by
  obtain ⟨w, w', hrun⟩ := hpayload
  by_cases hpassword : password = ""
  · subst hpassword
    rw [Custodian.privatePayload_plain hkind] at hrun
    cases hrun
    rw [Custodian.privateKeyOf_plain hkind, if_neg fun h => hmarks rfl (k.looksLike_document.mp h),
      Custodian.keyPairOf_document hvalid hprivate]
  · exact (Custodian.privateKeyOf_payload hkind hvalid hprivate hpassword hrun scheme).1

/-- When all calls have succeeded, the path of the public half leads to the one that was moved there last, and
the path to the private half that was moved there last, which was moved last of all. They are of one call exactly
if no other call moved its public half between the halves of that call, and then they have the same
identifier. -/
theorem writes_race [Nonempty ι] (h : Reaches here path.Apart (writing first path calls) s)
    (hdone : ∀ i, s.programs i = .done (.ok path)) (hkind : ∀ i, (calls i).key.keytype ≠ .rsa)
    (hvalid : ∀ i, (calls i).key.validate = .ok ()) :
    ∃ i j between before, s.moved = j :: (between ++ j :: before) ∧
      (∃ rest, publicMovers s.moved = i :: rest) ∧ (i = j ↔ ∀ m ∈ between, m ∈ before) ∧
      s.tree.read here path.publicKey = .ok (Text.utf8 (Custodian.publicPayload (calls i).key)) ∧
      (∃ payload, (calls j).Prepares payload ∧ s.tree.read here path = .ok (Text.utf8 payload)) ∧
      ∃ publicKey privateKey, publicKey.keyval.publicHalf = (calls i).key.keyval.publicHalf ∧
        privateKey.keyval = (calls j).key.keyval ∧ (i = j → publicKey.keyid = privateKey.keyid) ∧
        ∀ w : World, w.tree = s.tree → w.here = here →
          (Custodian.readPublic path.publicKey (calls i).key.keytype).runIn w = (.ok publicKey, w) ∧
          (((calls j).password = "" → (calls j).key.marks ≠ 4) →
            ((calls j).custodian.readPrivate path (calls j).key.keytype
              (some (calls j).password)).runIn w = (.ok privateKey, w)) := by
  obtain ⟨log, phases, hinv⟩ := Delivering.of_reaches h
  have hcount : ∀ i, s.moved.count i = 2 := fun i => (hinv.ended (hdone i)).1
  have hne : s.moved ≠ [] := by
    obtain ⟨i⟩ := ‹Nonempty ι›
    intro hnil
    have hi := hcount i
    rw [hnil] at hi
    cases hi
  obtain ⟨i, j, between, before, hmoved, ⟨rest, hi⟩, ⟨rest', hj⟩, hsame⟩ :=
    exists_last_movers hne hcount
  have hpublic := hinv.read_public hi
  obtain ⟨payload, hpayload, hprivate⟩ := hinv.read_private hj
  obtain ⟨-, hhas, hpath⟩ := hinv.ended (hdone j)
  refine ⟨i, j, between, before, hmoved, ⟨rest, hi⟩, hsame, hpublic, ⟨payload, hpayload, hprivate⟩,
    .assembled (calls i).key.keytype (calls i).key.scheme (calls i).key.keyval.publicHalf "",
    (calls j).custodian.reread (calls j).key, rfl, rfl, ?_, ?_⟩
  · rintro rfl
    rfl
  · rintro w htree rfl
    rw [← htree] at hpublic hprivate
    rw [Custodian.publicPayload_document (hkind i)] at hpublic
    refine ⟨Custodian.readPublic_document (hkind i) (hvalid i) path.check_publicKey hpublic, fun hmarks => ?_⟩
    rw [(calls j).custodian.readPrivate_given hpath (Custodian.readText_utf8 hprivate),
      privateKeyOf_prepared (hkind j) (hvalid j) hhas hmarks hpayload]

/-! ## Two calls that mix -/

def both (a b : Call) (i : Bool) : Call := if i then b else a

theorem apart_temporaryName (n : Nat) : Path.Apart ⟨"k"⟩ (FileTree.temporaryName n) := by
  have hlast : (Path.mk "k").lastSegment = "k" ∧ (Path.mk "k").publicKey.lastSegment = "k.pub" := by
    decide
  have hfirst : (FileTree.temporaryName n).toList.head? = some '.' := by
    simp [FileTree.temporaryName]
  rw [Path.Apart, hlast.1, hlast.2]
  constructor
  · intro h
    rw [h] at hfirst
    exact absurd hfirst (by decide)
  · intro h
    rw [h] at hfirst
    exact absurd hfirst (by decide)

theorem ends_replace_run {t t' : FileTree} {p : Path} {contents : Bytes}
    (h : (Atomic.replace p contents).runIn { World.start [] [] fun _ => 0 with tree := t } =
      (.ok (), { World.start [] [] fun _ => 0 with tree := t' })) :
    Program.Ends [] (Path.Apart ⟨"k"⟩) t (Atomic.replace p contents).run t' (.ok ()) := by
  have hends : Program.Ends [] (Path.Apart ⟨"k"⟩) t (Atomic.replace p contents).run _ _ :=
    Program.ends_run apart_temporaryName _ { World.start [] [] fun _ => 0 with tree := t }
  unfold Action.runIn at h
  rwa [h] at hends

theorem replace_again (contents before : Bytes) :
    (Atomic.replace ⟨"k.pub"⟩ contents).runIn
        { World.start [] [] fun _ => 0 with tree := ⟨[(["k.pub"], .file before)]⟩ } =
      (.ok (), { World.start [] [] fun _ => 0 with tree := ⟨[(["k.pub"], .file contents)]⟩ }) := by
  with_unfolding_all rfl

theorem replace_over (contents before beside : Bytes) :
    (Atomic.replace ⟨"k"⟩ contents).runIn { World.start [] [] fun _ => 0 with
        tree := ⟨[(["k"], .file before), (["k.pub"], .file beside)]⟩ } =
      (.ok (), { World.start [] [] fun _ => 0 with
        tree := ⟨[(["k"], .file contents), (["k.pub"], .file beside)]⟩ }) := by
  with_unfolding_all rfl

/-- Whatever two keys are written to one path, the public half of one can end up next to the private half of
the other, although both calls succeed. -/
theorem exists_race {a b : Call} {payload payload' : String} (ha : a.key.hasPrivate = true)
    (hb : b.key.hasPrivate = true) (hpayload : a.Prepares payload) (hpayload' : b.Prepares payload') :
    ∃ s, Reaches [] (Path.Apart ⟨"k"⟩) (writing .empty ⟨"k"⟩ (both a b)) s ∧
      (∀ i, s.programs i = .done (.ok ⟨"k"⟩)) ∧
      s.tree.read [] ⟨"k.pub"⟩ = .ok (Text.utf8 (Custodian.publicPayload b.key)) ∧
      s.tree.read [] ⟨"k"⟩ = .ok (Text.utf8 payload) := by
  have hpath : (Path.mk "k").check = .ok () := by decide
  let publicA : Bytes := Text.utf8 (Custodian.publicPayload a.key)
  let publicB : Bytes := Text.utf8 (Custodian.publicPayload b.key)
  -- the first call comes as far as its public half
  obtain ⟨s₁, h₁, ht₁, hp₁, hothers₁⟩ := reaches_then
    (.refl (a := writing .empty ⟨"k"⟩ (both a b))) false hpayload.ends rfl
    (congrArg ExceptT.run (Custodian.write_eq_given ha hpath _ _))
  obtain ⟨s₂, h₂, ht₂, hp₂, hothers₂⟩ := reaches_then h₁ false
    (ends_replace_run (Custodian.replace_blank (fun _ => 0) 0 publicA)) ht₁ hp₁
  -- the second call is carried out
  have hsecond : s₂.programs true = (both a b true).program ⟨"k"⟩ :=
    (hothers₂ true (by decide)).trans (hothers₁ true (by decide))
  obtain ⟨s₃, h₃, ht₃, hp₃, hothers₃⟩ := reaches_then h₂ true hpayload'.ends ht₂
    (hsecond.trans (congrArg ExceptT.run (Custodian.write_eq_given hb hpath _ _)))
  obtain ⟨s₄, h₄, ht₄, hp₄, hothers₄⟩ := reaches_then h₃ true
    (ends_replace_run (replace_again publicB publicA)) ht₃ hp₃
  obtain ⟨s₅, h₅, ht₅, hp₅, hothers₅⟩ := reaches_then h₄ true
    (ends_replace_run (Custodian.replace_beside (fun _ => 0) 0 (Text.utf8 payload') publicB)) ht₄ hp₄
  -- the first call moves its private half
  have hfirst : s₅.programs false = s₂.programs false :=
    (hothers₅ false (by decide)).trans ((hothers₄ false (by decide)).trans (hothers₃ false (by decide)))
  obtain ⟨s₆, h₆, ht₆, hp₆, hothers₆⟩ := reaches_then h₅ false
    (ends_replace_run (replace_over (Text.utf8 payload) (Text.utf8 payload') publicB)) ht₅
    (hfirst.trans hp₂)
  refine ⟨s₆, h₆, ?_, ?_, ?_⟩
  · intro i
    cases i with
    | false => exact hp₆
    | true => exact (hothers₆ true (by decide)).trans hp₅
  · rw [ht₆]
    rfl
  · rw [ht₆]
    rfl

/-- A key whose private half is the byte 8, thirty-two times. -/
def rival : KeyPair where
  keytype := .ed25519
  scheme := .ed25519
  keyid := "rival"
  hashAlgorithms := none
  keyval := {
    publicHalf := "1398f62c6d1a457c51ba6a4b5f3dbd2f69fca93216218dc8997e416bd17d93ca"
    privateHalf := "0808080808080808080808080808080808080808080808080808080808080808" }

theorem validate_rival : rival.validate = .ok () := by
  have h : rival.validate.toOption = some () := by decide +kernel
  cases hv : rival.validate with
  | ok u => rfl
  | error e => rw [hv] at h; cases h

def rivals : Bool → Call :=
  both ⟨Custodian.brisk, .specimen, "secret"⟩ ⟨Custodian.brisk, rival, "secret"⟩

theorem kind_rivals (i : Bool) : (rivals i).key.keytype ≠ .rsa := by
  cases i <;> decide

theorem validate_rivals (i : Bool) : (rivals i).key.validate = .ok () := by
  cases i with
  | false => exact KeyPair.validate_specimen
  | true => exact validate_rival

theorem exists_race_rivals :
    ∃ s payload, Reaches [] (Path.Apart ⟨"k"⟩) (writing .empty ⟨"k"⟩ rivals) s ∧
      (∀ i, s.programs i = .done (.ok ⟨"k"⟩)) ∧
      s.tree.read [] ⟨"k.pub"⟩ = .ok (Text.utf8 (Custodian.publicPayload rival)) ∧
      Custodian.brisk.Prepares .specimen "secret" payload ∧
      s.tree.read [] ⟨"k"⟩ = .ok (Text.utf8 payload) := by
  have hprepares : ∀ i, ∃ payload, (rivals i).Prepares payload := by
    intro i
    have hpassword : (rivals i).password ≠ "" := by cases i <;> decide
    obtain ⟨e, -, -, -, hpayload⟩ := Custodian.privatePayload_envelope (c := (rivals i).custodian)
      (kind_rivals i) hpassword (World.start [] [] fun _ => 0)
    exact ⟨e.encode, _, _, Prod.ext hpayload rfl⟩
  obtain ⟨payload, hpayload⟩ := hprepares false
  obtain ⟨payload', hpayload'⟩ := hprepares true
  obtain ⟨s, hreaches, hdone, hpublic, hprivate⟩ :=
    exists_race (by decide) (by decide) hpayload hpayload'
  exact ⟨s, payload, hreaches, hdone, hpublic, hpayload, hprivate⟩

/-- The halves that are left by calls that have all succeeded are not always those of one call. -/
theorem writes_race_mixed :
    ¬ ∀ (here : Location) (first : FileTree) (path : Path) (calls : Bool → Call)
      (s : Crowd Bool (Outcome Path)), Reaches here path.Apart (writing first path calls) s →
      (∀ i, s.programs i = .done (.ok path)) → (∀ i, (calls i).key.keytype ≠ .rsa) →
      (∀ i, (calls i).key.validate = .ok ()) → (∀ i, (calls i).password ≠ "") →
      ∃ i publicKey privateKey, publicKey.keyid = privateKey.keyid ∧
        publicKey.keyval.publicHalf = (calls i).key.keyval.publicHalf ∧
        privateKey.keyval = (calls i).key.keyval ∧ ∀ w : World, w.tree = s.tree → w.here = here →
          (Custodian.readPublic path.publicKey (calls i).key.keytype).runIn w = (.ok publicKey, w) ∧
          ((calls i).custodian.readPrivate path (calls i).key.keytype
            (some (calls i).password)).runIn w = (.ok privateKey, w) := by
  intro hall
  obtain ⟨s, payload, hreaches, hdone, hpublic, hpayload, hprivate⟩ := exists_race_rivals
  obtain ⟨i, publicKey, privateKey, -, hpublicHalf, hkeyval, hreads⟩ :=
    hall [] .empty ⟨"k"⟩ rivals s hreaches hdone kind_rivals validate_rivals (by decide)
  obtain ⟨hreadPublic, hreadPrivate⟩ :=
    hreads { World.start [] [] fun _ => 0 with tree := s.tree } rfl rfl
  cases i with
  | false =>
    rw [Custodian.publicPayload_document (by decide)] at hpublic
    have hfound := hreadPublic.symm.trans
      (Custodian.readPublic_document (k := rival) (by decide) validate_rival (by decide) hpublic)
    obtain rfl := Except.ok.inj (Prod.mk.inj hfound).1
    exact absurd hpublicHalf (by decide)
  | true =>
    have hkey := privateKeyOf_prepared (by decide) KeyPair.validate_specimen (by decide) (by decide)
      hpayload KeyType.ed25519.defaultScheme
    have hfound := hreadPrivate.symm.trans (Custodian.brisk.readPrivate_given (by decide)
      (Custodian.readText_utf8 hprivate) .ed25519 "secret")
    obtain rfl := Except.ok.inj ((Prod.mk.inj hfound).1.trans hkey)
    exact absurd hkeyval (by decide)

/-- The public half of one key next to the private half of another one. -/
theorem writes_race_rivals :
    ∃ (s : Crowd Bool (Outcome Path)) (i j : Bool) (between before : List Bool)
      (publicKey privateKey : KeyPair),
      Reaches [] (Path.Apart ⟨"k"⟩) (writing .empty ⟨"k"⟩ rivals) s ∧
      s.moved = j :: (between ++ j :: before) ∧ (i = j ↔ ∀ m ∈ between, m ∈ before) ∧
      publicKey.keyval.publicHalf = (rivals i).key.keyval.publicHalf ∧
      privateKey.keyval = (rivals j).key.keyval ∧ ∀ w : World, w.tree = s.tree → w.here = [] →
        (Custodian.readPublic ⟨"k.pub"⟩ (rivals i).key.keytype).runIn w = (.ok publicKey, w) ∧
        ((rivals j).custodian.readPrivate ⟨"k"⟩ (rivals j).key.keytype
          (some (rivals j).password)).runIn w = (.ok privateKey, w) := by
  obtain ⟨s, payload, hreaches, hdone, -⟩ := exists_race_rivals
  obtain ⟨i, j, between, before, hmoved, -, hsame, -, -, publicKey, privateKey, hpublicHalf, hkeyval, -,
    hreads⟩ := writes_race hreaches hdone kind_rivals validate_rivals
  refine ⟨s, i, j, between, before, publicKey, privateKey, hreaches, hmoved, hsame, hpublicHalf, hkeyval,
    fun w htree hhere => ?_⟩
  obtain ⟨hpublic, hprivate⟩ := hreads w htree hhere
  exact ⟨hpublic, hprivate fun hempty => absurd hempty (by cases j <;> decide)⟩

end Crowd

end KeyCustody
