import Credence.Decimal.Power
import Credence.Decimal.Rounding

/-!
# Numbers of 64 bits

A finite number of the `Float` type is a signed integer times a power of two.  `Parts` spells that
out, and `nearest` goes the other way: it gives the number nearest to a quotient of two integers.
-/

namespace Credence.Decimal

/-- A finite number: `mantissa * 2 ^ exponent`, with a sign that zero has too. -/
structure Parts where
  negative : Bool
  /-- The integer part of the product. -/
  mantissa : Nat
  exponent : Int
deriving DecidableEq, Repr

inductive Anatomy where
  | notANumber
  | infinite (negative : Bool)
  | finite (parts : Parts)
deriving DecidableEq, Repr

/-- Takes a number apart. -/
def anatomy (x : Float) : Anatomy :=
  let bits := x.toBits.toNat
  let negative : Bool := bits / twoPow 63 % 2 == 1
  let field : Nat := bits / twoPow 52 % twoPow 11
  let fraction : Nat := bits % twoPow 52
  if field = 2047 then if fraction = 0 then .infinite negative else .notANumber
  else if field = 0 then .finite ⟨negative, fraction, -1074⟩
  else .finite ⟨negative, twoPow 52 + fraction, (field : Int) - 1075⟩

/-- Whether a number is neither infinite nor undefined. -/
def isFinite (x : Float) : Bool :=
  match anatomy x with
  | .finite _ => true
  | _ => false

/-- `num / den / 2 ^ q` as a quotient of integers. -/
def scaleBy (num den : Nat) (q : Int) : Nat × Nat :=
  if q < 0 then (num * twoPow q.natAbs, den) else (num, den * twoPow q.natAbs)

/-- The power of two at which a quotient has a mantissa of 53 bits, but no power below the least. -/
def mantissaExponent (num den : Nat) : Int :=
  let q : Int := (num.log2 : Int) - den.log2 - 52
  let (n, d) := scaleBy num den q
  let q := if n / d < twoPow 52 then q - 1 else q
  if q < -1074 then -1074 else q

/-- The number nearest to `num / den`, ties going to the even mantissa; beyond the largest number
lies infinity. -/
def nearest (num den : Nat) : Float :=
  if num = 0 then 0
  else
    let q := mantissaExponent num den
    let (n, d) := scaleBy num den q
    let m := roundHalfEven n d
    let bits := if m < twoPow 52 then m else (q + 1075).toNat * twoPow 52 + (m - twoPow 52)
    if bits < 2047 * twoPow 52 then Float.ofBits (UInt64.ofNat bits)
    else Float.ofBits (UInt64.ofNat (2047 * twoPow 52))

def ofInt (n : Int) : Float := if n < 0 then -(nearest n.natAbs 1) else nearest n.natAbs 1

/-- The number of digits of an integer, one for zero. -/
def digitCount (n : Nat) : Nat := (Nat.toDigits 10 n).length

/-- The number nearest to `digits * 10 ^ exponent`. -/
def ofDecimal (digits : Nat) (exponent : Int) : Float :=
  if digits = 0 then 0
  else
    let size := exponent + digitCount digits
    if 310 < size then nearest (tenPow 310) 1
    else if size < -330 then 0
    else if exponent < 0 then nearest digits (tenPow exponent.natAbs)
    else nearest (digits * tenPow exponent.natAbs) 1

end Credence.Decimal
