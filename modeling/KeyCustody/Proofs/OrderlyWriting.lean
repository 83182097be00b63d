import KeyCustody.Proofs.WriteFrame
/-! # Orderly writing

A write delivers one complete file after the other, the public half first, whatever the host answers and
whatever others do to the tree. A turn of it changes its own temporary file at most, and moves it only to
the path that it is due at. -/

namespace KeyCustody

variable {α β : Type}

/-- A file that is moved to a path with all of its contents. -/
structure Delivery where
  path : Path
  contents : Bytes

namespace Phase

/-- The temporary file in hand, and what is in it. -/
def held? : Phase → Option (Temporary × Bytes)
  | .holding file contents => some (file, contents)
  | _ => none

theorem held?_eq_some {phase : Phase} {file : Temporary} {contents : Bytes} :
    phase.held? = some (file, contents) ↔ phase = .holding file contents := by
  cases phase <;> simp [held?]

theorem StoredIn.ne_of_directory {t : FileTree} {file : Temporary} {contents : Bytes} {l : Location}
    (h : (Phase.holding file contents).StoredIn t) (hl : t.lookup l = some .directory) :
    l ≠ file.location := by
  rintro rfl
  rw [(h file contents rfl).2] at hl
  cases hl

/-- What has been delivered in the end of a replacement that is in a phase. -/
def delivered (d : Delivery) (history : List Delivery) : Phase → List Delivery
  | .moved => d :: history
  | _ => history

end Phase

/-- What a turn does to the files of a tree. It takes nothing away but the temporary file in hand, and puts
nothing in the place of a file but what is delivered. -/
structure Turned (here : Location) (fresh : String → Prop) (t t' : FileTree)
    (held held' : Option (Temporary × Bytes)) (delivery : Option Delivery) : Prop where
  directory : ∀ l, t.lookup l = some .directory → t'.lookup l = some .directory
  file : ∀ l contents, t.lookup l = some (.file contents) →
    (∀ file stored, held = some (file, stored) → l ≠ file.location) →
    (∀ d g, delivery = some d → t'.target here d.path = .ok g → l ≠ g.location) →
    t'.lookup l = some (.file contents)
  own : ∀ file contents, held' = some (file, contents) →
    t'.lookup file.location = some (.file contents) ∧
      ((∃ stored, held = some (file, stored)) ∨
        t.lookup file.location = none ∧ ∃ name d, file.location = name :: d ∧ fresh name)
  holds : ∀ d, delivery = some d → ∃ g, t'.Holds here d.path d.contents g

theorem Change.delivered {here : Location} {fresh : String → Prop} {path : Path}
    {complete? : Option Bytes} {t t' : FileTree} {phase phase' : Phase} {moves : Bool}
    (h : Change here fresh path complete? t phase moves t' phase') (d : Delivery)
    (history : List Delivery) :
    phase'.delivered d history =
      (if moves then some d else none).toList ++ phase.delivered d history := by
  cases h <;> rfl

theorem Change.turned {here : Location} {fresh : String → Prop} {d : Delivery} {t t' : FileTree}
    {phase phase' : Phase} {moves : Bool} (hstored : phase.StoredIn t)
    (h : Change here fresh d.path (some d.contents) t phase moves t' phase') :
    Turned here fresh t t' phase.held? phase'.held? (if moves then some d else none) := by
  cases h with
  | grow hgrown =>
    refine ⟨fun l => hgrown.kept l _, fun l contents hl _ _ => hgrown.kept l _ hl, ?_, by rintro _ ⟨⟩⟩
    intro file contents hheld
    have hfile := (hstored file contents (Phase.held?_eq_some.mp hheld)).2
    exact ⟨hgrown.kept _ _ hfile, .inl ⟨contents, hheld⟩⟩
  | @make name directory _ hname hfree hlookup =>
    have hkept : ∀ l e, t.lookup l = some e → t'.lookup l = some e := by
      intro l e hl
      rw [hlookup, if_neg, hl]
      rintro rfl
      rw [hfree] at hl
      cases hl
    refine ⟨fun l => hkept l _, fun l contents hl _ _ => hkept l _ hl, ?_, by rintro _ ⟨⟩⟩
    rintro _ _ ⟨⟩
    exact ⟨by rw [hlookup, if_pos rfl], .inr ⟨hfree, name, directory, rfl, hname⟩⟩
  | @store file before after _ hlookup =>
    refine ⟨fun l hl => ?_, fun l contents hl hheld _ => ?_, ?_, by rintro _ ⟨⟩⟩
    · rw [hlookup, if_neg (hstored.ne_of_directory hl), hl]
    · rw [hlookup, if_neg (hheld file before rfl), hl]
    · rintro _ _ ⟨⟩
      exact ⟨by rw [hlookup, if_pos rfl], .inl ⟨before, rfl⟩⟩
  | @discard file before _ hlookup =>
    refine ⟨fun l hl => ?_, fun l contents hl hheld _ => ?_, by rintro _ _ ⟨⟩, by rintro _ ⟨⟩⟩
    · rw [hlookup, if_neg (hstored.ne_of_directory hl), hl]
    · rw [hlookup, if_neg (hheld file before rfl), hl]
  | @move file before g _ hcomplete hput =>
    have herase := FileTree.lookup_erase t (hstored file before rfl).1
    obtain rfl := Option.some.inj hcomplete
    refine ⟨fun l hl => hput.directory_kept l ?_, fun l contents hl hheld hplace => ?_,
      by rintro _ _ ⟨⟩, ?_⟩
    · rw [herase, if_neg (hstored.ne_of_directory hl), hl]
    · rw [hput.lookup, if_neg (hplace d g rfl hput.holds.target), herase,
        if_neg (hheld file _ rfl), hl]
    · rintro _ ⟨⟩
      exact ⟨g, hput.holds⟩

/-- Programs that deliver files one after the other in good order from a phase on, whatever the host answers.
What has been delivered is always `allowed`, and what has been delivered in the end, `after` says. -/
inductive Tidy (allowed : List Delivery → Prop) (after : α → List Delivery → Prop) :
    List Delivery → Phase → Program α → Prop
  | done {a : α} {history : List Delivery} (h : after a history) :
      Tidy allowed after history .idle (.done a)
  | random {count : Nat} {next : Option Bytes → Program α} {history : List Delivery}
      (h : ∀ r, (∀ bytes, r = some bytes → bytes.length = count) →
        Tidy allowed after history .idle (next r)) :
      Tidy allowed after history .idle (.random count next)
  | replace {d : Delivery} {history : List Delivery} {phase : Phase} {q : Program (Outcome Unit)}
      {f : Outcome Unit → Program α}
      (hq : Orderly d.path (some d.contents) Atomic.settled phase q)
      (hallowed : allowed (d :: history))
      (hok : Tidy allowed after (d :: history) .idle (f (.ok ())))
      (herror : ∀ e, Tidy allowed after history .idle (f (.error e))) :
      Tidy allowed after (phase.delivered d history) phase (q >>= f)

namespace Tidy

variable {allowed : List Delivery → Prop} {after : α → List Delivery → Prop} {history : List Delivery}
  {phase : Phase} {p p' : Program α}

theorem ended {a : α} (h : Tidy allowed after history phase (.done a)) : after a history := by
  generalize hp : Program.done a = p at h
  induction h with
  | done h =>
    cases hp
    exact h
  | random => cases hp
  | @replace d history phase q f hq _ _ _ ihok iherror =>
    cases q with
    | done r =>
      obtain ⟨rfl, rfl⟩ | ⟨⟨e, rfl⟩, rfl⟩ := hq.ended
      · exact ihok hp
      · exact iherror e hp
    | _ => cases hp

theorem of_draws {R : β → Prop} {q : Program β} {f : β → Program α} (hq : q.Draws R)
    (hf : ∀ b, R b → Tidy allowed after history .idle (f b)) :
    Tidy allowed after history .idle (q >>= f) := by
  induction hq with
  | done h => exact hf _ h
  | random _ ih => exact .random ih

/-- A turn of a tidy program that finds its temporary file as it left it. -/
theorem turn {here : Location} {fresh : String → Prop} {t t' : FileTree} {moves : Bool}
    (h : Tidy allowed after history phase p) (hstored : phase.StoredIn t)
    (hstep : Program.Step here fresh t p moves t' p') :
    ∃ (delivery : Option Delivery) (phase' : Phase),
      Tidy allowed after (delivery.toList ++ history) phase' p' ∧
      Turned here fresh t t' phase.held? phase'.held? delivery ∧ delivery.isSome = moves ∧
      ∀ d, delivery = some d → allowed (d :: history) := by
  induction h with
  | done h => cases hstep
  | random h =>
    cases hstep with
    | random hr =>
      have hsame : Turned here fresh t t none none none :=
        ⟨fun _ => id, fun _ _ hl _ _ => hl, by rintro _ _ ⟨⟩, by rintro _ ⟨⟩⟩
      exact ⟨none, .idle, h _ hr, hsame, rfl, by rintro _ ⟨⟩⟩
  | @replace d history phase q f hq hallowed hok herror ihok iherror =>
    obtain ⟨r, rfl⟩ | ⟨q', hstep', rfl⟩ := hstep.of_bind
    · obtain ⟨rfl, rfl⟩ | ⟨⟨e, rfl⟩, rfl⟩ := hq.ended
      · exact ihok (by rintro _ _ ⟨⟩) hstep
      · exact iherror e hstored hstep
    · obtain ⟨phase', hq', hchange⟩ := hq.turn hstored hstep'
      refine ⟨if moves then some d else none, phase', ?_, hchange.turned hstored, by cases moves <;> rfl, ?_⟩
      · rw [← hchange.delivered]
        exact .replace hq' hallowed hok herror
      · cases hchange with
        | move => rintro _ ⟨⟩; exact hallowed
        | _ => rintro _ ⟨⟩

end Tidy

/-! ## Calls -/

/-- A call that writes a key under a password. -/
structure Call where
  custodian : Custodian
  key : KeyPair
  password : String

namespace Call

variable {call : Call} {path : Path}

def program (call : Call) (path : Path) : Program (Outcome Path) :=
  (call.custodian.write call.key (some path) (some call.password)).run

/-- A text that the call may write for the private half. -/
def Prepares (call : Call) (payload : String) : Prop :=
  call.custodian.Prepares call.key call.password payload

/-- Making a payload that the call may write can come to it in every tree. -/
theorem Prepares.ends {payload : String} (h : call.Prepares payload) {here : Location}
    {fresh : String → Prop} {t : FileTree} :
    Program.Ends here fresh t (call.custodian.privatePayload call.key call.password).run t
      (.ok payload) := by
  obtain ⟨w, w', hrun⟩ := h
  have hends : Program.Ends here fresh t (call.custodian.privatePayload call.key call.password).run t
      ((call.custodian.privatePayload call.key call.password).runIn w).1 :=
    (Custodian.draws_privatePayload _ _ _).ends_run w
  rwa [hrun] at hends

def publicDelivery (call : Call) (path : Path) : Delivery :=
  ⟨path.publicKey, Text.utf8 (Custodian.publicPayload call.key)⟩

/-- What a call can have delivered, the last file first. -/
inductive Delivered (call : Call) (path : Path) : List Delivery → Prop
  | nothing : Delivered call path []
  | publicHalf : Delivered call path [call.publicDelivery path]
  | both {payload : String} (h : call.Prepares payload) :
      Delivered call path [⟨path, Text.utf8 payload⟩, call.publicDelivery path]

/-- A call that succeeds had a key and a path that are fit for it, and has delivered both halves. -/
def Ended (call : Call) (path : Path) (r : Outcome Path) (history : List Delivery) : Prop :=
  ∀ written, r = .ok written → written = path ∧ history.length = 2 ∧
    call.key.hasPrivate = true ∧ path.check = .ok ()

theorem tidy_replace {allowed : List Delivery → Prop} {after : α → List Delivery → Prop}
    {history : List Delivery} {contents : Bytes} {f : Outcome Unit → Program α}
    (hallowed : allowed (⟨path, contents⟩ :: history))
    (hok : Tidy allowed after (⟨path, contents⟩ :: history) .idle (f (.ok ())))
    (herror : ∀ e, Tidy allowed after history .idle (f (.error e))) :
    Tidy allowed after history .idle ((Atomic.replace path contents).run >>= f) := by
  have horderly : Orderly path (Filling.complete? ⟨[contents], none⟩) Atomic.settled .idle
      (Atomic.replace path contents).run := Atomic.orderly_replaceWith path ⟨[contents], none⟩
  have hcomplete : Filling.complete? ⟨[contents], none⟩ = some contents :=
    congrArg some List.flatten_singleton
  rw [hcomplete] at horderly
  exact .replace (d := ⟨path, contents⟩) horderly hallowed hok herror

theorem tidy_program (call : Call) (path : Path) :
    Tidy (call.Delivered path) (call.Ended path) [] .idle (call.program path) := by
  have herror : ∀ history e, Tidy (call.Delivered path) (call.Ended path) history .idle
      (.done (.error e)) := fun _ _ => .done (by rintro _ ⟨⟩)
  unfold program
  cases hk : call.key.hasPrivate with
  | false =>
    rw [Custodian.write_eq_throw hk]
    exact herror [] _
  | true =>
    cases hpath : path.check with
    | error e =>
      rw [Custodian.write_eq_refused hpath hk]
      exact herror [] e
    | ok u =>
      rw [Custodian.write_eq_given hk hpath]
      refine .of_draws (Custodian.draws_privatePayload _ _ _) fun r hr => ?_
      cases r with
      | error e => exact herror [] e
      | ok payload =>
        refine tidy_replace .publicHalf (tidy_replace (.both (hr payload rfl)) ?_ (herror _)) (herror _)
        refine .done ?_
        rintro _ ⟨⟩
        exact ⟨rfl, rfl, hk, hpath⟩

end Call

end KeyCustody
