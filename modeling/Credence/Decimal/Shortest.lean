import Credence.Decimal.Binary64

/-!
# The shortest decimal that reads back

A positive number `m * 2 ^ q` owns an interval of real numbers: those that lie nearer to it than to
its neighbours, the two ends included when `m` is even.  Every decimal in the interval reads back as
the number.  `shortest` looks for one with the fewest digits: on the grid of decimals with one
digit, then two, and so on, it tests the two points around the number, and takes the first hit, and
the nearer one when both points hit.  When they are equally near a `Tie` says which one it is.

All comparisons are between integers: `product` puts powers of two and ten that would be fractions
on the other side.
-/

namespace Credence.Decimal

/-- A decimal: `digits * 10 ^ exponent`. -/
structure Scaled where
  digits : Nat
  exponent : Int
deriving DecidableEq, Repr

/-- Whether `a * 2 ^ p ≤ b * 10 ^ e`. -/
def leDecimal (a : Nat) (p : Int) (b : Nat) (e : Int) : Bool :=
  a * twoPow p.toNat * tenPow (-e).toNat ≤ b * tenPow e.toNat * twoPow (-p).toNat

/-- Whether `b * 10 ^ e ≤ a * 2 ^ p`. -/
def decimalLe (b : Nat) (e : Int) (a : Nat) (p : Int) : Bool :=
  b * tenPow e.toNat * twoPow (-p).toNat ≤ a * twoPow p.toNat * tenPow (-e).toNat

/-- The largest power of ten that `m * 2 ^ q` reaches, for positive `m`. -/
def decimalExponent (m : Nat) (q : Int) : Int :=
  -- 0.30103 is the logarithm of two, so the guess is off by one at most
  let guess := ((m.log2 : Int) + q) * 30103 / 100000
  if !decimalLe 1 guess m q then guess - 1
  else if decimalLe 1 (guess + 1) m q then guess + 1
  else guess

/-- The interval of a number in quarters of its unit: the two ends and whether they belong. -/
structure Interval where
  /-- The lower end, in quarters of `2 ^ exponent`. -/
  lower : Nat
  /-- The upper end, in quarters of `2 ^ exponent`. -/
  upper : Nat
  /-- Whether the ends read back as the number. -/
  closed : Bool
  /-- The power of two of the quarter unit. -/
  exponent : Int

/-- The interval of `m * 2 ^ q`: below a power of two the neighbour is only half as far. -/
def interval (m : Nat) (q : Int) : Interval :=
  ⟨4 * m - (if m = twoPow 52 ∧ -1074 < q then 1 else 2), 4 * m + 2, m % 2 = 0, q - 2⟩

/-- Whether a decimal lies in an interval. -/
def Interval.holds (i : Interval) (d : Scaled) : Bool :=
  if i.closed then
    leDecimal i.lower i.exponent d.digits d.exponent &&
      decimalLe d.digits d.exponent i.upper i.exponent
  else
    !decimalLe d.digits d.exponent i.lower i.exponent &&
      !leDecimal i.upper i.exponent d.digits d.exponent

/-- The multiple of `10 ^ k` at or below `m * 2 ^ q`, counted in `10 ^ k`. -/
def floorAt (m : Nat) (q k : Int) : Nat :=
  (m * twoPow q.toNat * tenPow (-k).toNat) / (tenPow k.toNat * twoPow (-q).toNat)

/-- Which of two decimals stands for a number half-way between them. -/
inductive Tie where
  /-- The one farther from zero. -/
  | upper
  /-- The one whose last digit is even. -/
  | even
deriving DecidableEq, Repr

/-- Whether the number half-way between the integers `c` and `c + 1` goes to the second. -/
def Tie.goesUp : Tie → Nat → Bool
  | .upper, _ => true
  | .even, c => c % 2 = 1

/-- Whether `(c + 1) * 10 ^ k` is to stand for `m * 2 ^ q` rather than `c * 10 ^ k`. -/
def prefersAbove (tie : Tie) (m : Nat) (q : Int) (c : Nat) (k : Int) : Bool :=
  if tie.goesUp c then decimalLe (2 * c + 1) k (2 * m) q else !leDecimal (2 * m) q (2 * c + 1) k

/-- The point of the grid `10 ^ k` that reads back, the nearer one if two do. -/
def hit? (tie : Tie) (m : Nat) (q k : Int) : Option Scaled :=
  let c := floorAt m q k
  let below : Scaled := ⟨c, k⟩
  let above : Scaled := ⟨c + 1, k⟩
  let i := interval m q
  match i.holds below, i.holds above with
  | true, true => some (if prefersAbove tie m q c k then above else below)
  | true, false => some below
  | false, true => some above
  | false, false => none

/-- Tries the grids from `k` downwards. -/
def firstHit (tie : Tie) (m : Nat) (q : Int) : Nat → Int → Scaled
  | 0, k => ⟨floorAt m q k, k⟩
  | tries + 1, k => (hit? tie m q k).getD (firstHit tie m q tries (k - 1))

/-- Drops the zeros that end the digits; `fuel` bounds their number. -/
def dropZeros : Nat → Scaled → Scaled
  | 0, d => d
  | fuel + 1, d =>
    if d.digits ≠ 0 ∧ d.digits % 10 = 0 then dropZeros fuel ⟨d.digits / 10, d.exponent + 1⟩ else d

/-- The shortest decimal that reads back as `m * 2 ^ q`, for positive `m`; seventeen digits always
suffice. -/
def shortest (tie : Tie) (m : Nat) (q : Int) : Scaled :=
  dropZeros 20 (firstHit tie m q 17 (decimalExponent m q))

end Credence.Decimal
