import Credence.Text.RangeTable
import Credence.Text.Property.Extender
import Credence.Text.Property.Unprintable

/-!
# Quoted text

A quoted text stands between double quotes.  Inside, the quote and the backslash follow a backslash,
tab, line feed, carriage return and NUL have their letters, and every other character that would not
show by itself is written as its code point between braces.
-/

namespace Credence.Text

/-- The table of characters that extend the one before, outside ASCII. -/
def extenderTable : RunTable Unit := rangesOf Property.extender

/-- The table of characters without a printed form, outside ASCII. -/
def unprintableTable : RunTable Unit := rangesOf Property.unprintable

/-- Whether a character shows by itself. -/
def shows (c : Char) : Bool :=
  if c.toNat < 0x80 then 0x20 ≤ c.toNat && c.toNat < 0x7F
  else !extenderTable.holds c && !unprintableTable.holds c

/-- The digits of a number in lower-case hexadecimal, without leading zeros. -/
def hexDigits (n : Nat) : List Char := Nat.toDigits 16 n

/-- How a character is written inside quotes. -/
def quoteChar (c : Char) : List Char :=
  if c = '\x22' then ['\\', '\x22']
  else if c = '\\' then ['\\', '\\']
  else if c = '\t' then ['\\', 't']
  else if c = '\n' then ['\\', 'n']
  else if c = '\r' then ['\\', 'r']
  else if c = '\x00' then ['\\', '0']
  else if shows c then [c]
  else ['\\', 'u', '\x7b'] ++ hexDigits c.toNat ++ ['\x7d']

/-- A text between double quotes. -/
def quoteChars (text : List Char) : List Char := '\x22' :: text.flatMap quoteChar ++ ['\x22']

def quote (s : String) : String := String.ofList (quoteChars s.toList)

end Credence.Text
