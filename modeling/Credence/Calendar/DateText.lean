import Credence.Calendar.Date
import Credence.Decimal.Reading
import Credence.Decimal.Layout
import Credence.Text.Blank

/-!
# Dates as text

A date is written year first, `2017-02-01`; a year that four digits cannot hold carries its sign.
It is read in three layouts, tried in turn: day first with dashes, year first with dashes, day first
with slashes.  The fields of a layout are the same everywhere: a day or a month has at most two
digits, a year has at most four unless a sign stands before it, and blanks may stand before a field.
-/

namespace Credence

namespace Calendar

open Decimal (digitsOf digitsValue isDigit zeros)

/-! ## Writing -/

/-- An integer filled up with zeros to a width. -/
def padded (width n : Nat) : List Char :=
  let digits := digitsOf n
  zeros (width - digits.length) ++ digits

/-- A year in four digits, with a sign outside the years 0 to 9999. -/
def yearText (year : Int) : List Char :=
  if 0 ≤ year ∧ year ≤ 9999 then padded 4 year.toNat
  else (if year < 0 then '-' else '+') :: padded 4 year.natAbs

/-! ## Reading fields -/

/-- Reads an integer of at least one and at most `width` digits. -/
def integer? (width : Nat) (text : List Char) : Option (Nat × List Char) :=
  let digits := (text.take width).takeWhile isDigit
  if digits = [] then none else some (digitsValue digits, text.drop digits.length)

/-- Reads an integer of any number of digits. -/
def longInteger? (text : List Char) : Option (Nat × List Char) := integer? text.length text

/-- Reads a day or a month. -/
def smallField? (text : List Char) : Option (Nat × List Char) :=
  integer? 2 (Text.trimLeft text)

/-- Reads a year: at most four digits, or any number of them after a sign. -/
def year? (text : List Char) : Option (Int × List Char) :=
  match Text.trimLeft text with
  | '-' :: rest => (longInteger? rest).map fun (n, rest) => (-(n : Int), rest)
  | '+' :: rest => (longInteger? rest).map fun (n, rest) => ((n : Int), rest)
  | text => (integer? 4 text).map fun (n, rest) => ((n : Int), rest)

def mark? (c : Char) : List Char → Option (List Char)
  | d :: rest => if d = c then some rest else none
  | [] => none

/-! ## Layouts -/

inductive FieldOrder where
  | dayFirst
  | yearFirst
deriving DecidableEq, Repr

/-- How a date is laid out. -/
structure Layout where
  order : FieldOrder
  separator : Char
deriving DecidableEq, Repr

/-- The layouts that a date is read in, in the order in which they are tried. -/
def layouts : List Layout := [⟨.dayFirst, '-'⟩, ⟨.yearFirst, '-'⟩, ⟨.dayFirst, '/'⟩]

def Layout.write (l : Layout) (d : Date) : List Char :=
  match l.order with
  | .dayFirst => padded 2 d.day ++ l.separator :: padded 2 d.month ++ l.separator :: yearText d.year
  | .yearFirst =>
    yearText d.year ++ l.separator :: padded 2 d.month ++ l.separator :: padded 2 d.day

def Layout.read? (l : Layout) (text : List Char) : Option Date := do
  match l.order with
  | .dayFirst =>
    let (day, rest) ← smallField? text
    let rest ← mark? l.separator rest
    let (month, rest) ← smallField? rest
    let rest ← mark? l.separator rest
    let (year, rest) ← year? rest
    if rest = [] then Date.of? year month day else none
  | .yearFirst =>
    let (year, rest) ← year? text
    let rest ← mark? l.separator rest
    let (month, rest) ← smallField? rest
    let rest ← mark? l.separator rest
    let (day, rest) ← smallField? rest
    if rest = [] then Date.of? year month day else none

/-- Reads a date as a saved document holds it: year first, with blanks allowed around the fields. -/
def readSaved? (text : List Char) : Option Date := do
  let (year, rest) ← year? text
  let rest ← mark? '-' (Text.trimLeft rest)
  let (month, rest) ← smallField? rest
  let rest ← mark? '-' (Text.trimLeft rest)
  let (day, rest) ← smallField? rest
  if Text.trimLeft rest = [] then Date.of? year month day else none

end Calendar

namespace Date

open Calendar

/-- The written form of a date, year first. -/
def toText (d : Date) : String := String.ofList (Layout.write ⟨.yearFirst, '-'⟩ d)

/-- Reads a text as a date in the first layout that takes it. -/
def read? (s : String) : Option Date :=
  let text := Text.trimChars s.toList
  layouts.findSome? fun l => l.read? text

end Date

end Credence
