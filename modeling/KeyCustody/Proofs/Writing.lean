import KeyCustody.Custodian
import KeyCustody.Proofs.Replacement
/-! # Writing a key

A key is written in three steps: its payload is made, which draws random bytes and changes no file, the
public half is replaced, and the private half is replaced. A run of `write` is one of the four ways to go
through these steps. -/

namespace KeyCustody.Custodian

variable {c : Custodian} {k : KeyPair} {path written : Path} {password : String} {w w' : World} {e : Failure}

theorem privatePayload_world (c : Custodian) (k : KeyPair) (password : String) (w : World) :
    ∃ n, ((c.privatePayload k password).runIn w).2 = { w with drawn := n } := by
  unfold privatePayload
  split <;> split_ifs
  · exact ⟨w.drawn, rfl⟩
  · rw [Action.runIn_bind, Action.runIn_ofOutcome]
    cases Rsa.privateInfo k.keyval.privateHalf with
    | error e => exact ⟨w.drawn, rfl⟩
    | ok info => exact ⟨w.drawn + 16 + 16, rfl⟩
  · exact ⟨w.drawn, rfl⟩
  · exact ⟨w.drawn + 16 + 16, rfl⟩

theorem publicPayload_document (hkind : k.keytype ≠ .rsa) : publicPayload k = k.metadata.document := by
  unfold publicPayload
  split
  · exact absurd ‹_› hkind
  · rfl

theorem publicPayload_rsa (hkind : k.keytype = .rsa) : publicPayload k = k.keyval.publicHalf := by
  rw [publicPayload, hkind]

theorem privatePayload_rsa_plain (hkind : k.keytype = .rsa) (w : World) :
    (c.privatePayload k "").runIn w = (.ok k.keyval.privateHalf, w) := by
  unfold privatePayload
  rw [hkind]
  rfl

def store (k : KeyPair) (path : Path) (payload : String) : Action Path := do
  Atomic.replace path.publicKey (Text.utf8 (publicPayload k))
  Atomic.replace path (Text.utf8 payload)
  return path

/-- What a write of a key with a private half consists of. -/
theorem write_eq (hk : k.hasPrivate = true) (c : Custodian) (path : Option Path)
    (given : Option String) : c.write k path given =
      destination k path >>= fun path =>
        Password.acquire given (Password.creationPrompt k.keytype path) true
          c.settings.maxPasswordAttempts.toNat >>= fun password =>
            c.privatePayload k password >>= store k path := by
  unfold write
  rw [hk]
  rfl

theorem write_eq_throw (hk : k.hasPrivate = false) (c : Custodian) (path : Option Path)
    (given : Option String) : c.write k path given = throw .publicOnlyWrite := by
  unfold write
  rw [hk]
  rfl

theorem write_eq_given (hk : k.hasPrivate = true) (hpath : path.check = .ok ()) (c : Custodian)
    (password : String) : c.write k (some path) (some password) =
      c.privatePayload k password >>= store k path := by
  have hdestination : destination k (some path) = pure path := by
    rw [destination, hpath]
    rfl
  rw [write_eq hk, hdestination]
  rfl

theorem write_eq_refused (hpath : path.check = .error e) (hk : k.hasPrivate = true) (c : Custodian)
    (password : String) : c.write k (some path) (some password) = throw e := by
  have hdestination : destination k (some path) = throw e := by
    rw [destination, hpath]
    rfl
  rw [write_eq hk, hdestination]
  rfl

theorem write_run (hk : k.hasPrivate = true) (hpath : path.check = .ok ()) (w : World) :
    (c.write k (some path) (some password)).runIn w =
      (c.privatePayload k password >>= store k path).runIn w := by
  rw [write_eq_given hk hpath]

theorem write_refused (c : Custodian) (password : String)
    (h : ¬ (k.hasPrivate = true ∧ path.check = .ok ())) (w : World) :
    ∃ e, (c.write k (some path) (some password)).runIn w = (.error e, w) := by
  cases hk : k.hasPrivate with
  | false => exact ⟨.publicOnlyWrite, by rw [write_eq_throw hk, Action.runIn_throw]⟩
  | true =>
    cases hc : path.check with
    | ok u => exact absurd ⟨hk, hc⟩ h
    | error e => exact ⟨e, by rw [write_eq_refused hc hk, Action.runIn_throw]⟩

/-- A write that succeeds has gone through all three steps. -/
theorem stored_ok (h : (c.privatePayload k password >>= store k path).runIn w = (.ok written, w')) :
    written = path ∧ ∃ payload w₁ w₂ u v, (c.privatePayload k password).runIn w = (.ok payload, w₁) ∧
      (Atomic.replace path.publicKey (Text.utf8 (publicPayload k))).runIn w₁ = (.ok u, w₂) ∧
      (Atomic.replace path (Text.utf8 payload)).runIn w₂ = (.ok v, w') := by
  obtain ⟨payload, w₁, hpayload, h⟩ := Action.runIn_bind_ok h
  obtain ⟨u, w₂, hpublic, h⟩ := Action.runIn_bind_ok h
  obtain ⟨v, w₃, hprivate, h⟩ := Action.runIn_bind_ok h
  rw [Action.runIn_pure] at h
  cases h
  exact ⟨rfl, payload, w₁, w₂, u, v, hpayload, hpublic, hprivate⟩

theorem write_ok (h : (c.write k (some path) (some password)).runIn w = (.ok written, w')) :
    k.hasPrivate = true ∧ path.check = .ok () ∧ ∃ payload w₁ w₂ u v,
      (c.privatePayload k password).runIn w = (.ok payload, w₁) ∧
      (Atomic.replace path.publicKey (Text.utf8 (publicPayload k))).runIn w₁ = (.ok u, w₂) ∧
      (Atomic.replace path (Text.utf8 payload)).runIn w₂ = (.ok v, w') := by
  by_cases hready : k.hasPrivate = true ∧ path.check = .ok ()
  · rw [write_run hready.1 hready.2] at h
    exact ⟨hready.1, hready.2, (stored_ok h).2⟩
  · obtain ⟨e, he⟩ := write_refused c password hready w
    rw [he] at h
    cases h

theorem write_here_ok (h : (c.write k none (some password)).runIn w = (.ok written, w')) :
    (c.privatePayload k password >>= store k ((World.pathOf w.here).join ⟨k.keyid⟩)).runIn w =
      (.ok written, w') := by
  have hdirectory : Action.workingDirectory.runIn w = (.ok (World.pathOf w.here), w) := rfl
  cases hk : k.hasPrivate with
  | false =>
    rw [write_eq_throw hk] at h
    cases h
  | true =>
    rw [write_eq hk] at h
    unfold destination Password.acquire at h
    simp only [Action.runIn_bind, Action.runIn_pure, Action.andThen_ok, hdirectory] at h
    rw [Action.runIn_bind]
    exact h

/-! ## An empty directory -/

def blank (randomness : Nat → UInt8) (drawn : Nat) : World :=
  { World.start [] [] randomness with drawn := drawn }

theorem replace_blank (randomness : Nat → UInt8) (drawn : Nat) (contents : Bytes) :
    (Atomic.replace ⟨"k.pub"⟩ contents).runIn (blank randomness drawn) =
      (.ok (), { blank randomness drawn with tree := ⟨[(["k.pub"], .file contents)]⟩ }) := by
  with_unfolding_all rfl

theorem replace_beside (randomness : Nat → UInt8) (drawn : Nat) (contents beside : Bytes) :
    (Atomic.replace ⟨"k"⟩ contents).runIn
        { blank randomness drawn with tree := ⟨[(["k.pub"], .file beside)]⟩ } =
      (.ok (), { blank randomness drawn with
        tree := ⟨[(["k"], .file contents), (["k.pub"], .file beside)]⟩ }) := by
  with_unfolding_all rfl

theorem write_blank {randomness : Nat → UInt8} {payload : String} (hprivate : k.hasPrivate = true)
    (hpayload : ((c.privatePayload k password).runIn (World.start [] [] randomness)).1 = .ok payload) :
    ∃ w', (c.write k (some ⟨"k"⟩) (some password)).runIn (World.start [] [] randomness) =
      (.ok ⟨"k"⟩, w') := by
  obtain ⟨drawn, hdrawn⟩ := c.privatePayload_world k password (World.start [] [] randomness)
  have hrun : (c.privatePayload k password).runIn (World.start [] [] randomness) =
      (.ok payload, blank randomness drawn) := Prod.ext hpayload hdrawn
  have hname : Path.publicKey ⟨"k"⟩ = ⟨"k.pub"⟩ := by rfl
  rw [write_run hprivate (by decide), Action.runIn_bind, hrun, Action.andThen_ok, store, hname,
    Action.runIn_bind, replace_blank, Action.andThen_ok, Action.runIn_bind, replace_beside,
    Action.andThen_ok, Action.runIn_pure]
  exact ⟨_, rfl⟩

end KeyCustody.Custodian
