import KeyCustody.Proofs.WriteFrame
/-! # Writes that are rejected

A write asks for a password and makes its payload before it touches any file, and before that it looks at the
key and the path. What is refused in these steps is put down to the caller, to the key, to whoever enters the
password or to the source of random bytes, and no file has changed. The replacements come afterwards: they ask
for nothing, and only the host can make them fail. -/

namespace KeyCustody

open Program

variable {α β : Type} {here : Location} {fresh : String → Prop} {t t' : FileTree}

/-! ## Programs that ask for nothing -/

namespace Program

/-- No prompt is shown, whatever the host says. -/
def AsksNothing : Program α → Prop
  | done _ => True
  | prompt _ _ => False
  | workingDirectory next => ∀ r, (next r).AsksNothing
  | noteMismatch next => ∀ r, (next r).AsksNothing
  | random _ next => ∀ r, (next r).AsksNothing
  | readBytes _ next => ∀ r, (next r).AsksNothing
  | makeDirectory _ next => ∀ r, (next r).AsksNothing
  | isDirectory _ next => ∀ r, (next r).AsksNothing
  | makeTemporary _ next => ∀ r, (next r).AsksNothing
  | append _ _ next => ∀ r, (next r).AsksNothing
  | sync _ next => ∀ r, (next r).AsksNothing
  | move _ _ next => ∀ r, (next r).AsksNothing
  | discard _ next => ∀ r, (next r).AsksNothing

namespace AsksNothing

variable {p p' : Program α} {f : α → Program β}

theorem bind (hp : p.AsksNothing) (hf : ∀ a, (f a).AsksNothing) : (p >>= f).AsksNothing := by
  change (p.bind f).AsksNothing
  induction p with
  | done a => exact hf a
  | prompt text next => exact hp.elim
  | workingDirectory next ih => exact fun r => ih r (hp r)
  | noteMismatch next ih => exact fun r => ih r (hp r)
  | random count next ih => exact fun r => ih r (hp r)
  | readBytes path next ih => exact fun r => ih r (hp r)
  | makeDirectory path next ih => exact fun r => ih r (hp r)
  | isDirectory path next ih => exact fun r => ih r (hp r)
  | makeTemporary directory next ih => exact fun r => ih r (hp r)
  | append file contents next ih => exact fun r => ih r (hp r)
  | sync file next ih => exact fun r => ih r (hp r)
  | move file path next ih => exact fun r => ih r (hp r)
  | discard file next ih => exact fun r => ih r (hp r)

theorem step {moves : Bool} (hp : p.AsksNothing) (hstep : Step here fresh t p moves t' p') :
    p'.AsksNothing := by
  cases hstep with
  | prompt r => exact hp.elim
  | _ => exact hp _

theorem answers_eq_nil {answers : List (IoResult String)} {a : α} (hp : p.AsksNothing)
    (h : EndsAsking here fresh t p answers t' a) : answers = [] := by
  induction h with
  | done => rfl
  | prompt => exact hp.elim
  | turn _ hstep _ ih => exact ih (hp.step hstep)

theorem ofOutcome (r : Outcome α) : (Action.ofOutcome r).run.AsksNothing := trivial

theorem action_bind {a : Action α} {f : α → Action β} (ha : a.run.AsksNothing)
    (hf : ∀ x, (f x).run.AsksNothing) : (a >>= f).run.AsksNothing := by
  refine bind ha fun r => ?_
  cases r with
  | ok x => exact hf x
  | error e => trivial

theorem random (count : Nat) : (Action.random count).run.AsksNothing := by
  intro r
  cases r <;> trivial

end AsksNothing

end Program

namespace Atomic

open Program

theorem asksNothing_ensureDirectory (p : Path) : (ensureDirectory p).AsksNothing := by
  rintro (fault | ⟨⟩)
  · change AsksNothing (if _ then _ else _)
    split_ifs
    · rintro (_ | _) <;> trivial
    · trivial
  · trivial

theorem asksNothing_climb (ps : List Path) : (climb ps).AsksNothing := by
  induction ps with
  | nil => trivial
  | cons p ps ih =>
    rw [climb]
    split_ifs
    · trivial
    refine (asksNothing_ensureDirectory p).bind ?_
    rintro (fault | ⟨⟩)
    · change AsksNothing (if _ then _ else _)
      split_ifs
      · refine ih.bind ?_
        rintro (_ | _) <;> trivial
      · trivial
    · trivial

theorem asksNothing_ensureDirectories (ps : List Path) : (ensureDirectories ps).AsksNothing := by
  induction ps with
  | nil => trivial
  | cons p ps ih =>
    refine (asksNothing_ensureDirectory p).bind ?_
    rintro (fault | ⟨⟩)
    · trivial
    · exact ih

theorem asksNothing_appendAll (file : Temporary) (pieces : List Bytes) :
    (appendAll file pieces).AsksNothing := by
  induction pieces with
  | nil => trivial
  | cons piece pieces ih =>
    rintro (fault | ⟨⟩)
    · trivial
    · exact ih

theorem asksNothing_fillAndMove (file : Temporary) (path : Path) (filling : Filling) :
    (fillAndMove file path filling).AsksNothing := by
  refine (asksNothing_appendAll file filling.pieces).bind ?_
  rintro (fault | ⟨⟩)
  · trivial
  · cases filling.fault with
    | some fault => trivial
    | none => rintro (fault | ⟨⟩) <;> first | trivial | exact fun _ => trivial

theorem asksNothing_replaceIn (directory path : Path) (filling : Filling) :
    (replaceIn directory path filling).AsksNothing := by
  rintro (fault | file)
  · trivial
  · refine (asksNothing_fillAndMove file path filling).bind ?_
    rintro (fault | ⟨⟩)
    · exact fun _ => trivial
    · trivial

theorem asksNothing_replace (path : Path) (contents : Bytes) :
    (replace path contents).run.AsksNothing := by
  refine AsksNothing.bind ?_ fun r => trivial
  cases directoryOf? path with
  | none => exact asksNothing_replaceIn _ _ _
  | some directory =>
    refine AsksNothing.bind (AsksNothing.bind (asksNothing_climb directory.ancestors) ?_) ?_
    · rintro (fault | missing)
      · trivial
      · exact asksNothing_ensureDirectories missing
    · rintro (fault | ⟨⟩)
      · trivial
      · exact asksNothing_replaceIn _ _ _

end Atomic

/-! ## Prompts without an answer -/

namespace Action

theorem endsAsking_bind {a : Action α} {f : α → Action β} {answers : List (IoResult String)} {r : Outcome β}
    (h : EndsAsking here fresh t (a >>= f).run answers t' r) :
    (∃ x mid before after, answers = before ++ after ∧ EndsAsking here fresh t a.run before mid (.ok x) ∧
        EndsAsking here fresh mid (f x).run after t' r) ∨
      ∃ e, EndsAsking here fresh t a.run answers t' (.error e) ∧ r = .error e := by
  obtain ⟨mid, result, before, after, rfl, hfirst, hrest⟩ := EndsAsking.of_bind h
  cases result with
  | ok x => exact .inl ⟨x, mid, before, after, rfl, hfirst, hrest⟩
  | error e =>
    cases hrest with
    | done => exact .inr ⟨e, (List.append_nil before).symm ▸ hfirst, rfl⟩
    | turn _ hstep => cases hstep

/-- A prompt that gets no answer is the end of it, with the fault that it got instead and with the tree as it
was. -/
def StopsUnanswered (a : Action α) : Prop :=
  ∀ (here : Location) (fresh : String → Prop) (t t' : FileTree) (answers : List (IoResult String))
    (r : Outcome α) (fault : IoFault), EndsAsking here fresh t a.run answers t' r →
      .error fault ∈ answers → t' = t ∧ r = .error (failureOf fault)

namespace StopsUnanswered

theorem of_asksNothing {a : Action α} (ha : a.run.AsksNothing) : a.StopsUnanswered := by
  intro here fresh t t' answers r fault h hfault
  rw [ha.answers_eq_nil h] at hfault
  cases hfault

theorem prompt (text : String) : (Action.prompt text).StopsUnanswered := by
  intro here fresh t t' answers r fault h hfault
  cases h with
  | turn hother => exact absurd rfl (hother _ _)
  | prompt hrest =>
    cases hrest with
    | turn _ hstep => cases hstep
    | done =>
      obtain rfl := List.mem_singleton.mp hfault
      exact ⟨rfl, rfl⟩

/-- What comes first must not have changed the tree when it succeeds. -/
theorem bind {a : Action α} {f : α → Action β} (ha : a.StopsUnanswered) (hkeeps : a.KeepsTree)
    (hf : ∀ x, (f x).StopsUnanswered) : (a >>= f).StopsUnanswered := by
  intro here fresh t t' answers r fault h hfault
  obtain ⟨x, mid, before, after, rfl, hfirst, hrest⟩ | ⟨e, hfirst, rfl⟩ := endsAsking_bind h
  · obtain rfl := hkeeps _ _ _ _ _ hfirst.ends
    obtain hbefore | hafter := List.mem_append.mp hfault
    · cases (ha _ _ _ _ _ _ fault hfirst hbefore).2
    · exact hf x _ _ _ _ _ _ fault hrest hafter
  · obtain ⟨rfl, he⟩ := ha _ _ _ _ _ _ fault hfirst hfault
    exact ⟨rfl, congrArg _ (Except.error.inj he)⟩

end StopsUnanswered

theorem exists_fault {p : Program (IoResult α)} {e : Failure}
    (h : Ends here fresh t (Action.ofCall p).run t' (.error e)) : ∃ fault, e = failureOf fault := by
  obtain ⟨mid, result, -, hrest⟩ := Ends.of_bind h
  cases result with
  | ok x => cases (ends_done hrest).1
  | error fault => exact ⟨fault, Except.error.inj (ends_done hrest).1⟩

end Action

namespace Password

open KeyCustody.Action

theorem confirmed_stopsUnanswered (text : String) (attempts left : Nat) :
    (confirmed text attempts left).StopsUnanswered := by
  induction left with
  | zero => exact .of_asksNothing trivial
  | succ left ih =>
    refine (StopsUnanswered.prompt text).bind (.prompt text) fun first => ?_
    refine (StopsUnanswered.prompt confirmPrompt).bind (.prompt confirmPrompt) fun _ => ?_
    split_ifs
    · exact .of_asksNothing trivial
    · have hnote : Action.noteMismatch.run.AsksNothing := fun _ => trivial
      exact (StopsUnanswered.of_asksNothing hnote).bind .noteMismatch fun _ => ih

theorem acquire_stopsUnanswered (given : Option String) (text : String) (attempts : Nat) :
    (acquire given text true attempts).StopsUnanswered := by
  cases given with
  | some password => exact .of_asksNothing trivial
  | none => exact confirmed_stopsUnanswered text attempts attempts

end Password

namespace Custodian

open KeyCustody.Action

variable {c : Custodian} {k : KeyPair} {path : Path} {payload : String} {e : Failure}

theorem asksNothing_destination (k : KeyPair) (path : Option Path) : (destination k path).run.AsksNothing := by
  cases path with
  | some path => exact AsksNothing.action_bind (.ofOutcome path.check) fun _ => trivial
  | none =>
    rintro (fault | directory) <;> trivial

theorem asksNothing_sealing (f : Bytes → Bytes → Outcome α) : (sealing f).run.AsksNothing :=
  AsksNothing.action_bind (.random 16) fun _ => AsksNothing.action_bind (.random 16) fun _ => .ofOutcome _

theorem asksNothing_privatePayload (c : Custodian) (k : KeyPair) (password : String) :
    (c.privatePayload k password).run.AsksNothing := by
  by_cases hkind : k.keytype = .rsa
  · rw [privatePayload_eq_rsa hkind]
    split_ifs
    · trivial
    · exact AsksNothing.action_bind (.ofOutcome _) fun _ => asksNothing_sealing _
  · rw [privatePayload_eq_curve hkind]
    split_ifs
    · trivial
    · exact asksNothing_sealing _

theorem asksNothing_store (k : KeyPair) (path : Path) (payload : String) :
    (store k path payload).run.AsksNothing :=
  AsksNothing.action_bind (Atomic.asksNothing_replace _ _) fun _ =>
    AsksNothing.action_bind (Atomic.asksNothing_replace _ _) fun _ => trivial

theorem store_fault (h : Ends here fresh t (store k path payload).run t' (.error e)) :
    ∃ fault, e = failureOf fault := by
  obtain ⟨⟨⟩, t₁, -, hrest⟩ | ⟨e', hfirst, he⟩ := ends_bind h
  · obtain ⟨⟨⟩, t₂, -, hrest⟩ | ⟨e', hsecond, he⟩ := ends_bind hrest
    · cases (ends_done hrest).1
    · exact Except.error.inj he ▸ exists_fault hsecond
  · exact Except.error.inj he ▸ exists_fault hfirst

theorem write_stopsUnanswered (c : Custodian) (k : KeyPair) (path : Option Path) (given : Option String) :
    (c.write k path given).StopsUnanswered := by
  cases hk : k.hasPrivate with
  | false =>
    rw [write_eq_throw hk]
    exact .of_asksNothing trivial
  | true =>
    rw [write_eq hk]
    refine (StopsUnanswered.of_asksNothing (asksNothing_destination k path)).bind
      (destination_keepsTree k path) fun destined => ?_
    refine (Password.acquire_stopsUnanswered given _ _).bind (Password.acquire_keepsTree given _ _)
      fun password => ?_
    exact (StopsUnanswered.of_asksNothing (asksNothing_privatePayload c k password)).bind
      (privatePayload_keepsTree c k password) fun payload => .of_asksNothing (asksNothing_store k destined payload)

/-- Only refusals of the host come after a file or a directory has been touched. -/
theorem tree_of_not_fault {path : Option Path} {given : Option String}
    (h : Ends here fresh t (c.write k path given).run t' (.error e)) (he : ∀ fault, e ≠ failureOf fault) :
    t' = t := by
  cases hk : k.hasPrivate with
  | false =>
    rw [write_eq_throw hk] at h
    exact (ends_done h).2
  | true =>
    rw [write_eq hk] at h
    obtain ⟨destined, -, h⟩ | ⟨rfl, -⟩ := (destination_keepsTree k path).ends_bind h
    · obtain ⟨password, -, h⟩ | ⟨rfl, -⟩ := (Password.acquire_keepsTree given _ _).ends_bind h
      · obtain ⟨payload, -, h⟩ | ⟨rfl, -⟩ := (privatePayload_keepsTree c k password).ends_bind h
        · obtain ⟨fault, hfault⟩ := store_fault h
          exact absurd hfault (he fault)
        · rfl
      · rfl
    · rfl

/-- A write that fails for the key, the caller or the source of random bytes has changed neither files nor
directories, and so has one that gets no answer to a prompt, which is what it fails for. A key without a
private half and a path that no file can have are rejected without any call to the host, and so is a number of
bits that the settings do not allow. -/
theorem write_rejected (c : Custodian) (path : Option Path) (given : Option String) :
    (∀ here fresh t t' k e, Ends here fresh t (c.write k path given).run t' (.error e) →
      e.report.category ∈ ["FormatError", "DecodeError", "CryptoError"] → t' = t) ∧
    (∀ here fresh t t' k answers fault r,
      EndsAsking here fresh t (c.write k path given).run answers t' r → .error fault ∈ answers →
        t' = t ∧ r = .error (failureOf fault)) ∧
    (∀ k : KeyPair, k.hasPrivate = false → c.write k path given = throw .publicOnlyWrite) ∧
    (∀ (k : KeyPair) p e, k.hasPrivate = true → path = some p → p.check = .error e →
      c.write k path given = throw e) ∧
    ∀ bits, c.settings.allowsRsaBits (bits.getD c.settings.rsaDefaultBits.toNat) = false →
      ∃ e, c.generateRsa path bits given = throw e ∧
        e.report.category = "FormatError" ∧ e.report.code = ReportCode.invalidRsaBits.number := by
  refine ⟨?_, ?_, fun k hk => write_eq_throw hk c path given, ?_, fun bits hbits => ?_⟩
  · intro here fresh t t' k e h he
    refine tree_of_not_fault h ?_
    rintro fault rfl
    simp [failureOf, Failure.report, Report.category] at he
  · intro here fresh t t' k answers fault r h
    exact write_stopsUnanswered c k path given _ _ _ _ _ _ fault h
  · rintro k p e hk rfl hcheck
    rw [write_eq hk, destination, hcheck]
    rfl
  · refine ⟨.rsaSize (bits.getD c.settings.rsaDefaultBits.toNat) c.settings.rsaMinBits.toNat
      (c.settings.rsaMaxBits.map UInt64.toNat), ?_, rfl, rfl⟩
    rw [generateRsa, Generation.rsa, Settings.checkRsaBits, hbits]
    rfl

/-- There are no random bytes, a password is not confirmed, a key has no private half, a path ends in no name,
and a key is too small. -/
theorem write_rejected_unconfirmed :
    let w := World.start [] ["secret"] fun _ => 0
    (∃ t', Ends [] (fun _ => True) w.tree (default.write .specimen (some ⟨"a/k"⟩) (some "secret")).run t'
        (.error .noEntropy) ∧ t' = w.tree) ∧
      (∃ t' r, EndsAsking [] (fun _ => True) w.tree (default.write .specimen (some ⟨"a/k"⟩) none).run
          [.ok "secret", .error World.noAnswer] t' r ∧
        t' = w.tree ∧ r = .error (.io .inputExhausted World.noAnswer.text)) ∧
      (default.write KeyPair.specimen.publicOnly none none).runIn w = (.error .publicOnlyWrite, w) ∧
      (default.write .specimen (some ⟨"a/.."⟩) none).runIn w = (.error (.namelessPath ".."), w) ∧
      ∃ e, (default.generateRsa none (some 1024) none).runIn w = (.error e, w) ∧
        e.report.category = "FormatError" ∧ e.report.code = ReportCode.invalidRsaBits.number := by
  intro w
  have hprivate : KeyPair.specimen.hasPrivate = true := by decide
  have hcheck : Path.check ⟨"a/k"⟩ = .ok () := by decide
  obtain ⟨hfails, hstops, -⟩ := write_rejected default (some ⟨"a/k"⟩) none
  refine ⟨?_, ?_, ?_, ?_, ?_⟩
  · have hends : Ends [] (fun _ => True) w.tree (default.write .specimen (some ⟨"a/k"⟩) (some "secret")).run
        w.tree (.error .noEntropy) := by
      rw [write_eq_given hprivate hcheck, privatePayload_eq_curve (by decide), if_neg (by decide)]
      exact .turn (.random (r := none) (by rintro _ ⟨⟩)) .done
    exact ⟨_, hends, (write_rejected default _ _).1 _ _ _ _ _ _ hends (by decide)⟩
  · have hasking : EndsAsking [] (fun _ => True) w.tree (default.write .specimen (some ⟨"a/k"⟩) none).run
        [.ok "secret", .error World.noAnswer] w.tree (.error (failureOf World.noAnswer)) := by
      have hattempts : default.settings.maxPasswordAttempts.toNat = 3 := rfl
      rw [write_eq hprivate, destination, hcheck, hattempts]
      exact .prompt (.prompt .done)
    exact ⟨_, _, hasking, hstops _ _ _ _ _ _ World.noAnswer _ hasking (by simp)⟩
  · rw [(write_rejected default none none).2.2.1 _ (by decide), runIn_throw]
  · have hnameless : Path.check ⟨"a/.."⟩ = .error (.namelessPath "..") := by decide
    rw [(write_rejected default (some ⟨"a/.."⟩) none).2.2.2.1 _ _ _ hprivate rfl hnameless, runIn_throw]
  · obtain ⟨e, hthrow, hreport⟩ := (write_rejected default none none).2.2.2.2 (some 1024) (by decide)
    exact ⟨e, by rw [hthrow, runIn_throw], hreport⟩

end Custodian

end KeyCustody
