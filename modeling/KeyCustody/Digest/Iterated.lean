import KeyCustody.Bytes.Basic
/-! # Iterated hash functions

A hash function that absorbs a padded message block by block: a one bit, zeros, and the length in
bits fill the last block. `Iterated.finish` goes on from a state that has absorbed whole blocks
already. HMAC holds a key as the two states that have absorbed it, so a tag costs no more than the message and
one block. In PBKDF2 every output block is the exclusive or of `rounds` tags, the first of the salt and the
block number, each later one of the tag before it. -/

namespace KeyCustody.Digest

/-- An iterated hash function over blocks of `blockSize` bytes. -/
structure Iterated where
  State : Type
  start : State
  blockSize : Nat
  /-- The bytes that the length takes at the end of the padding. -/
  lengthSize : Nat
  absorb : State → Bytes → State
  output : State → Bytes

namespace Iterated

/-- What follows a message of `length` bytes. -/
def padding (h : Iterated) (length : Nat) : Bytes :=
  let used := (length + 1 + h.lengthSize) % h.blockSize
  0x80 :: (List.replicate ((h.blockSize - used) % h.blockSize) 0 ++
    Bytes.ofNat h.lengthSize (8 * length))

/-- The digest of a message whose first `absorbed` bytes are in the state already. -/
def finish (h : Iterated) (state : h.State) (absorbed : Nat) (rest : Bytes) : Bytes :=
  h.output <| (Bytes.chunks h.blockSize (rest ++ h.padding (absorbed + rest.length))).foldl
    h.absorb state

def digest (h : Iterated) (message : Bytes) : Bytes := h.finish h.start 0 message

end Iterated

/-- A key: the states after the inner and the outer key block. -/
structure HmacKey (h : Iterated) where
  inner : h.State
  outer : h.State

namespace HmacKey

/-- The key in exactly one block: hashed if it is longer, then filled with zeros. -/
def block (h : Iterated) (key : Bytes) : Bytes :=
  let short := if key.length > h.blockSize then h.digest key else key
  short ++ List.replicate (h.blockSize - short.length) 0

def ofBytes (h : Iterated) (key : Bytes) : HmacKey h where
  inner := h.absorb h.start ((block h key).map (· ^^^ 0x36))
  outer := h.absorb h.start ((block h key).map (· ^^^ 0x5c))

def tag {h : Iterated} (key : HmacKey h) (message : Bytes) : Bytes :=
  h.finish key.outer h.blockSize (h.finish key.inner h.blockSize message)

end HmacKey

def hmac (h : Iterated) (key message : Bytes) : Bytes := (HmacKey.ofBytes h key).tag message

theorem length_hmac {h : Iterated} {n : Nat} (hn : ∀ s, (h.output s).length = n)
    (key message : Bytes) : (hmac h key message).length = n :=
  hn _

/-- `rounds` further tags added to `sum`, where `last` is the newest tag. -/
def addTags {h : Iterated} (key : HmacKey h) : (rounds : Nat) → (last sum : Bytes) → Bytes
  | 0, _, sum => sum
  | rounds + 1, last, sum =>
    let next := key.tag last
    addTags key rounds next (Bytes.xor sum next)

/-- Output block `index`, counted from one. -/
def pbkdf2Block {h : Iterated} (key : HmacKey h) (salt : Bytes) (rounds index : Nat) : Bytes :=
  let first := key.tag (salt ++ Bytes.ofNat 4 index)
  addTags key (rounds - 1) first first

def pbkdf2 (h : Iterated) (password salt : Bytes) (rounds length : Nat) : Bytes :=
  let key := HmacKey.ofBytes h password
  let count := length / (h.output h.start).length + 1
  ((List.range count).flatMap fun i => pbkdf2Block key salt rounds (i + 1)).take length

variable {h : Iterated} {n : Nat}

theorem length_addTags (hn : ∀ s, (h.output s).length = n) (key : HmacKey h) (rounds : Nat)
    {last sum : Bytes} (hsum : sum.length = n) : (addTags key rounds last sum).length = n := by
  induction rounds generalizing last sum with
  | zero => exact hsum
  | succ rounds ih =>
    refine ih ?_
    rw [Bytes.length_xor, hsum, HmacKey.tag, Iterated.finish, hn, Nat.min_self]

theorem length_pbkdf2 (hn : ∀ s, (h.output s).length = n) (h0 : 0 < n) (password salt : Bytes)
    (rounds length : Nat) : (pbkdf2 h password salt rounds length).length = length := by
  have hblock : ∀ i, (pbkdf2Block (HmacKey.ofBytes h password) salt rounds (i + 1)).length = n :=
    fun i => length_addTags hn _ _ (hn _)
  rw [pbkdf2, List.length_take, List.length_flatMap]
  simp only [hblock, hn, List.map_const', List.length_range, List.sum_replicate_nat]
  have := Nat.lt_div_mul_add (a := length) h0
  rw [Nat.add_one_mul]
  omega

end KeyCustody.Digest
