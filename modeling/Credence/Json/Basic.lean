import Credence.Decimal.Layout

/-!
# Documents

A document is a JSON tree.  It is written on one line (`Json.line`), or with every entry on a line
of its own, two blanks deeper than the list or object that holds it (`Json.page`).  A number that is
not finite has no form in a document and is written as null.
-/

namespace Credence

inductive Json where
  | null
  | bool (b : Bool)
  | integer (n : Int)
  | number (x : Float)
  | text (s : String)
  | list (items : List Json)
  | object (fields : List (String × Json))
deriving Inhabited

namespace Json

/-- The number of hexadecimal digits after `\u`. -/
def hexFour (n : Nat) : List Char :=
  let digits := Nat.toDigits 16 n
  List.replicate (4 - digits.length) '0' ++ digits

/-- How a character is written in a document. -/
def escape (c : Char) : List Char :=
  if c = '\x22' then ['\\', '\x22']
  else if c = '\\' then ['\\', '\\']
  else if c = '\n' then ['\\', 'n']
  else if c = '\r' then ['\\', 'r']
  else if c = '\t' then ['\\', 't']
  else if c = '\x08' then ['\\', 'b']
  else if c = '\x0c' then ['\\', 'f']
  else if c.toNat < 0x20 then '\\' :: 'u' :: hexFour c.toNat
  else [c]

/-- A text in its quotes. -/
def quoted (s : String) : List Char := '\x22' :: s.toList.flatMap escape ++ ['\x22']

def integerText (n : Int) : List Char := Decimal.signed (n < 0) (Decimal.digitsOf n.natAbs)

def numberText (x : Float) : List Char :=
  if Decimal.isFinite x then (Decimal.exchange x).toList else "null".toList

mutual

/-- A document on one line, in front of what follows it. -/
def lineOnto : Json → List Char → List Char
  | null, after => "null".toList ++ after
  | bool b, after => (if b then "true" else "false").toList ++ after
  | integer n, after => integerText n ++ after
  | number x, after => numberText x ++ after
  | text s, after => quoted s ++ after
  | list items, after => '[' :: lineItemsOnto items true (']' :: after)
  | object fields, after => '\x7b' :: lineFieldsOnto fields true ('\x7d' :: after)

def lineItemsOnto : List Json → Bool → List Char → List Char
  | [], _, after => after
  | item :: rest, first, after =>
    (if first then [] else [',']) ++ lineOnto item (lineItemsOnto rest false after)

def lineFieldsOnto : List (String × Json) → Bool → List Char → List Char
  | [], _, after => after
  | (key, value) :: rest, first, after =>
    (if first then [] else [','])
      ++ (quoted key ++ ':' :: lineOnto value (lineFieldsOnto rest false after))

end

def line (j : Json) : String := String.ofList (j.lineOnto [])

/-- A line break with the blanks of a depth after it. -/
def newLine (depth : Nat) : List Char := '\n' :: List.replicate (2 * depth) ' '

mutual

/-- A document at a depth, in front of what follows it. -/
def pageOnto : Json → Nat → List Char → List Char
  | list [], _, after => '[' :: ']' :: after
  | list (item :: rest), depth, after =>
    '[' :: pageItemsOnto (item :: rest) true (depth + 1) (newLine depth ++ ']' :: after)
  | object [], _, after => '\x7b' :: '\x7d' :: after
  | object (field :: rest), depth, after =>
    '\x7b' :: pageFieldsOnto (field :: rest) true (depth + 1) (newLine depth ++ '\x7d' :: after)
  | null, _, after => lineOnto null after
  | bool b, _, after => lineOnto (bool b) after
  | integer n, _, after => lineOnto (integer n) after
  | number x, _, after => lineOnto (number x) after
  | text s, _, after => lineOnto (text s) after

def pageItemsOnto : List Json → Bool → Nat → List Char → List Char
  | [], _, _, after => after
  | item :: rest, first, depth, after =>
    (if first then [] else [','])
      ++ (newLine depth ++ pageOnto item depth (pageItemsOnto rest false depth after))

def pageFieldsOnto : List (String × Json) → Bool → Nat → List Char → List Char
  | [], _, _, after => after
  | (key, value) :: rest, first, depth, after =>
    (if first then [] else [','])
      ++ (newLine depth ++ (quoted key
        ++ ':' :: ' ' :: pageOnto value depth (pageFieldsOnto rest false depth after)))

end

/-- A document with every entry on a line of its own. -/
def page (j : Json) : String := String.ofList (j.pageOnto 0 [])

/-- The value of a field of an object; the last one counts. -/
def field? (key : String) : Json → Option Json
  | object fields => (fields.reverse.find? (·.1 = key)).map (·.2)
  | _ => none

end Json

end Credence
