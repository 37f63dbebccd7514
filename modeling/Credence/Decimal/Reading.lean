import Credence.Decimal.Binary64
import Credence.Text.Blank

/-!
# Reading a number

`read?` reads a whole text as a number: an optional sign, then `inf`, `infinity` or `nan` in any
case, or digits with at most one point among or around them and an optional exponent.  The result is
the number nearest to what the digits say.
-/

namespace Credence.Decimal

/-- Whether a character is one of the ten digits. -/
def isDigit (c : Char) : Bool := '0' ≤ c && c ≤ '9'

/-- Splits off the digits at the front of a text. -/
def spanDigits (text : List Char) : List Char × List Char :=
  (text.takeWhile isDigit, text.dropWhile isDigit)

/-- The integer that digits spell. -/
def digitsValue (digits : List Char) : Nat :=
  digits.foldl (fun n c => 10 * n + (c.toNat - '0'.toNat)) 0

/-- Splits off a sign, which is plus unless a minus stands there. -/
def spanSign : List Char → Bool × List Char
  | '-' :: rest => (true, rest)
  | '+' :: rest => (false, rest)
  | text => (false, text)

/-- The power of ten that a text gives as an exponent, zero for no text. -/
def exponent? : List Char → Option Int
  | [] => some 0
  | c :: rest =>
    if c = 'e' ∨ c = 'E' then
      let (negative, digits) := spanSign rest
      if digits ≠ [] ∧ digits.all isDigit then
        some (if negative then -(digitsValue digits : Int) else digitsValue digits)
      else none
    else none

/-- Reads a text of digits, point and exponent. -/
def unsigned? (text : List Char) : Option Float :=
  let (whole, rest) := spanDigits text
  let (fraction, rest) := match rest with
    | '.' :: rest => spanDigits rest
    | rest => ([], rest)
  if whole = [] ∧ fraction = [] then none
  else
    (exponent? rest).map fun e => ofDecimal (digitsValue (whole ++ fraction)) (e - fraction.length)

/-- The number that a word spells. -/
def namedNumber? (text : List Char) : Option Float :=
  let word := String.ofList (text.map Char.toLower)
  if word = "inf" ∨ word = "infinity" then some (1 / 0)
  else if word = "nan" then some (0 / 0)
  else none

/-- Reads a whole text as a number. -/
def readChars? (text : List Char) : Option Float :=
  let (negative, rest) := spanSign text
  (namedNumber? rest <|> unsigned? rest).map fun x => if negative then -x else x

def read? (s : String) : Option Float := readChars? s.toList

end Credence.Decimal
