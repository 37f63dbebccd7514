import Credence.Json.Reader

/-!
# Identifiers

A rule is known by a number of 128 bits, written as 32 hexadecimal digits in groups of 8, 4, 4, 4
and 12.  An identifier is also read without dashes, between braces, or after `urn:uuid:` in any
case.

New identifiers come from a `Supply`.  They have the layout of version 4, whose free bits hold the
number of the supply and a count, so no two identifiers of distinct supplies or counts are equal.
Whoever starts a knowledge base draws the number of its supply, which keeps new identifiers apart
from those that documents bring along.
-/

namespace Credence

/-- What identifies a rule. -/
structure RuleId where
  bits : BitVec 128
deriving DecidableEq, Repr, Inhabited

namespace RuleId

def nil : RuleId := ⟨0⟩

/-- The 32 hexadecimal digits. -/
def digits (id : RuleId) : List Char :=
  let digits := Nat.toDigits 16 id.bits.toNat
  List.replicate (32 - digits.length) '0' ++ digits

/-- The lengths of the groups of digits. -/
def groups : List Nat := [8, 4, 4, 4, 12]

/-- Puts a dash between groups of given lengths. -/
def hyphenated : List Nat → List Char → List Char
  | [], _ => []
  | [n], ds => ds.take n
  | n :: more, ds => ds.take n ++ '-' :: hyphenated more (ds.drop n)

def toText (id : RuleId) : String := String.ofList (hyphenated groups id.digits)

/-- The number of hexadecimal digits, none if a character is no digit. -/
def hexNumber? (ds : List Char) : Option Nat :=
  ds.foldlM (fun n c => (Json.hexValue? c).map fun d => 16 * n + d) 0

/-- Takes groups of digits with dashes between them, and nothing else. -/
def ungrouped? : List Nat → List Char → Option (List Char)
  | [], ds => if ds = [] then some [] else none
  | [n], ds => if ds.length = n then some ds else none
  | n :: more, ds =>
    match ds.drop n with
    | '-' :: rest => (ungrouped? more rest).map (ds.take n ++ ·)
    | _ => none

/-- Reads 32 digits, with all dashes or without any. -/
def ofDigits? (text : List Char) : Option RuleId := do
  let ds ← if text.length = 32 then some text else ungrouped? groups text
  let n ← hexNumber? ds
  return ⟨BitVec.ofNat 128 n⟩

def read? (s : String) : Option RuleId :=
  let text := s.toList
  let name := "urn:uuid:".toList
  if (text.take name.length).map Char.toLower = name then
    let rest := text.drop name.length
    if rest.length = 36 then ofDigits? rest else none
  else if text.head? = some '\x7b' ∧ text.getLast? = some '\x7d' ∧ text.length = 38 then
    ofDigits? (text.drop 1).dropLast
  else ofDigits? text

end RuleId

open Decimal (twoPow)

/-- A source of new identifiers. -/
structure Supply where
  /-- Tells this supply from others. -/
  stream : Nat
  /-- How many identifiers it has given. -/
  given : Nat
deriving DecidableEq, Repr, Inhabited

/-- The next identifier of a supply: version 4, variant 2, the stream in the first 48 bits and the
count in the last 62. -/
def Supply.next (s : Supply) : RuleId :=
  let stream := s.stream % twoPow 48
  let count := s.given % twoPow 62
  ⟨BitVec.ofNat 128 (stream * twoPow 80 + 4 * twoPow 76 + 2 * twoPow 62 + count)⟩

def Supply.advance (s : Supply) : Supply := { s with given := s.given + 1 }

end Credence
