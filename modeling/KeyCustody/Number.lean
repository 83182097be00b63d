/-! # Modular arithmetic and prime numbers

Powers by repeated squaring and inverses by the chain of remainders. A number is tested for being prime by
trial division and then by the square roots of one that the powers of small bases meet: a prime always passes,
and a composite that passes is not to be expected of a number drawn at random. -/

namespace KeyCustody.Number

def squareStep (m base exponent i acc : Nat) : Nat :=
  let square := acc * acc % m
  if exponent.testBit i then square * base % m else square

/-- A power modulo `m`, from the top digit of the exponent down. -/
def powMod (m base exponent : Nat) : Nat :=
  let base := base % m
  (List.range (exponent.log2 + 1)).foldr (squareStep m base exponent) (1 % m)

theorem foldr_squareStep (m base exponent start : Nat) :
    ∀ count, (List.range' start count).foldr (squareStep m base exponent) (1 % m) =
      Nat.pow base (exponent >>> start % Nat.pow 2 count) % m := by
  simp only [Nat.pow_eq]
  intro count
  induction count generalizing start with
  | zero => simp [Nat.mod_one]
  | succ count ih =>
    have halves : exponent >>> start % 2 ^ (count + 1) =
        2 * (exponent >>> (start + 1) % 2 ^ count) + (exponent.testBit start).toNat := by
      have low : exponent >>> start % 2 = (exponent.testBit start).toNat := by
        rcases Nat.mod_two_eq_zero_or_one (exponent >>> start) with h | h <;>
          simp [Nat.testBit, Nat.and_comm, Nat.and_one_is_mod, h]
      rw [Nat.pow_succ, Nat.mul_comm, Nat.mod_mul, low, Nat.shiftRight_add, Nat.add_comm]
      simp [Nat.shiftRight_succ]
    rw [List.range'_succ, List.foldr_cons, ih, squareStep, halves]
    cases exponent.testBit start
    · simp [Nat.two_mul, Nat.pow_add, Nat.mul_mod]
    · simp [Nat.two_mul, Nat.pow_add, Nat.mul_mod]

theorem powMod_eq (m base exponent : Nat) : powMod m base exponent = Nat.pow base exponent % m := by
  have small : exponent % 2 ^ (exponent.log2 + 1) = exponent :=
    Nat.mod_eq_of_lt Nat.lt_log2_self
  have := foldr_squareStep m (base % m) exponent 0 (exponent.log2 + 1)
  simp only [Nat.pow_eq, Nat.shiftRight_zero, small] at this
  rw [powMod, Nat.pow_eq, List.range_eq_range', this, ← Nat.pow_mod]

/-- The chain of remainders of a number and `m`, where `r` and `s` are congruent to `x` and `y` times
the number. -/
def inverseFrom (m : Nat) : (fuel r s x y : Nat) → Option Nat
  | 0, _, _, _, _ => none
  | fuel + 1, r, s, x, y =>
    if s = 0 then if r = 1 then some x else none
    else inverseFrom m fuel s (r % s) y ((x + r / s * (m - y)) % m)

/-- The inverse of a number modulo `m`, if they have no factor in common. A remainder is less than
half of the one before the last, which bounds the length of the chain. -/
def invMod (m a : Nat) : Option Nat := inverseFrom m (2 * m.log2 + 4) (a % m) m 1 0

def smallPrimes : List Nat :=
  (List.range 1000).filter fun n =>
    2 ≤ n && (List.range' 2 (n - 2)).all fun d => d * d > n || n % d != 0

/-- Whether a number becomes `n - 1` within `count` squarings modulo `n`. -/
def reachesMinusOne (n : Nat) : (count x : Nat) → Bool
  | 0, _ => false
  | count + 1, x => x == n - 1 || reachesMinusOne n count (x * x % n)

/-- How often two divides a number. -/
def twos (n : Nat) : Nat := ((List.range (n.log2 + 1)).find? n.testBit).getD 0

/-- Whether `base` gives no proof that the odd number `n` is composite. -/
def passes (n base : Nat) : Bool :=
  let count := twos (n - 1)
  let x := powMod n base ((n - 1) >>> count)
  x == 1 || reachesMinusOne n count x

/-- The test for primes: no small prime divides the number and forty bases pass. -/
def isPrime (n : Nat) : Bool :=
  if n < 1000 then smallPrimes.contains n
  else smallPrimes.all (fun p => n % p != 0) && (smallPrimes.take 40).all (passes n)

end KeyCustody.Number
