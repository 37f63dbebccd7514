import Credence.Decimal.Reading

/-!
# Numbers in documents

The digits of a number are kept as long as they fit into 64 bits.  An integer that fits is exact;
any other number is the kept integer, as the nearest number, times or divided by a power of ten in
one operation of the number type (for small numbers, in steps of `10 ^ 308`).  A number whose size
is beyond the largest has no value.
-/

namespace Credence.Json

/-- What a number in a document comes to. -/
inductive Numeral where
  | integer (n : Int)
  | number (x : Float)
  /-- Beyond the largest number. -/
  | huge

/-- The bound on the digits that are kept. -/
def keptBound : Nat := Decimal.twoPow 64

/-- A power of ten, up to the largest that is a number. -/
def powerOfTen (n : Nat) : Float := Decimal.ofDecimal 1 n

/-- `x * 10 ^ exponent`, by one operation for each 308 powers; none beyond the largest number.  The
first argument bounds the steps. -/
def scale : Nat → Float → Int → Option Float
  | 0, _, _ => none
  | steps + 1, x, exponent =>
    if exponent.natAbs ≤ 308 then
      if 0 ≤ exponent then
        let y := x * powerOfTen exponent.natAbs
        if Decimal.isFinite y then some y else none
      else some (x / powerOfTen exponent.natAbs)
    else if x == 0 then some x
    else if 0 ≤ exponent then none
    else scale steps (x / powerOfTen 308) (exponent + 308)

/-- The kept digits times a power of ten.  After four steps nothing but zero is left. -/
def scaled (kept : Nat) (exponent : Int) : Option Float :=
  scale 5 (Decimal.nearest kept 1) exponent

/-- The digits kept, the power of ten that makes up for those dropped, and whether any was. -/
structure Kept where
  value : Nat := 0
  exponent : Int := 0
  full : Bool := false

/-- Takes one more digit before the point. -/
def Kept.whole (k : Kept) (digit : Char) : Kept :=
  let next := 10 * k.value + Decimal.digitsValue [digit]
  if k.full then { k with exponent := k.exponent + 1 }
  else if next < keptBound then { k with value := next }
  else { k with exponent := k.exponent + 1, full := true }

/-- Takes one more digit after the point. -/
def Kept.fraction (k : Kept) (digit : Char) : Kept :=
  let next := 10 * k.value + Decimal.digitsValue [digit]
  if k.full then k
  else if next < keptBound then { k with value := next, exponent := k.exponent - 1 }
  else { k with full := true }

/-- What an exponent may come to before it is too large to count. -/
def exponentBound : Nat := Decimal.twoPow 31

/-- The parts of a number as they are written. -/
structure Spelling where
  negative : Bool
  whole : List Char
  fraction : Option (List Char)
  /-- Whether the exponent is negative, and its digits. -/
  exponent : Option (Bool × List Char)

/-- The size of a number that is no plain integer. -/
def Spelling.size? (s : Spelling) : Option Float :=
  let kept := s.whole.foldl Kept.whole {}
  let kept := match s.fraction with
    | some digits => digits.foldl Kept.fraction { kept with full := false }
    | none => kept
  match s.exponent with
  | none => scaled kept.value kept.exponent
  | some (negative, digits) =>
    let e := Decimal.digitsValue digits
    if exponentBound ≤ e then if kept.value ≠ 0 ∧ !negative then none else some 0
    else scaled kept.value (kept.exponent + if negative then -(e : Int) else e)

/-- What a number comes to. -/
def Spelling.numeral (s : Spelling) : Numeral :=
  let value := Decimal.digitsValue s.whole
  if s.fraction.isNone ∧ s.exponent.isNone ∧ value < keptBound then
    if !s.negative then .integer value
    -- minus zero is no integer, since it keeps its sign
    else if 0 < value ∧ value ≤ Decimal.twoPow 63 then .integer (-(value : Int))
    else .number (-(Decimal.nearest value 1))
  else
    match s.size? with
    | some x => .number (if s.negative then -x else x)
    | none => .huge

/-- Reads the exponent of a number, if one follows; none if it has no digits. -/
def exponentAhead : List Char → Option (Option (Bool × List Char) × List Char)
  | c :: rest =>
    if c = 'e' ∨ c = 'E' then
      let (negative, rest) := Decimal.spanSign rest
      match Decimal.spanDigits rest with
      | ([], _) => none
      | (digits, rest) => some (some (negative, digits), rest)
    else some (none, c :: rest)
  | [] => some (none, [])

/-- Reads the part after the point, if one follows; none if it has no digits. -/
def fractionAhead : List Char → Option (Option (List Char) × List Char)
  | '.' :: rest =>
    match Decimal.spanDigits rest with
    | ([], _) => none
    | (digits, rest) => some (some digits, rest)
  | rest => some (none, rest)

/-- Reads a number at the front of a text; a leading zero stands alone. -/
def spellingAhead (text : List Char) : Option (Spelling × List Char) := do
  let (negative, text) := match text with
    | '-' :: rest => (true, rest)
    | _ => (false, text)
  let (whole, rest) := Decimal.spanDigits text
  if whole = [] ∨ (whole.head? = some '0' ∧ 1 < whole.length) then none
  else
    let (fraction, rest) ← fractionAhead rest
    let (exponent, rest) ← exponentAhead rest
    some (⟨negative, whole, fraction, exponent⟩, rest)

end Credence.Json
