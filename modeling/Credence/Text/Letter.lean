import Credence.Text.RangeTable
import Credence.Text.Property.Alphabetic
import Credence.Text.Property.Numeric
import Credence.Text.Property.Word

/-!
# Letters, numerals and the characters of words

The ASCII part of each class is decided by its own rule, so that what is said about ASCII text needs
no table; the rest is looked up.
-/

namespace Credence.Text

/-- The table of alphabetic characters outside ASCII. -/
def alphabeticTable : RunTable Unit := runsOf Property.alphabetic

/-- The table of numeric characters outside ASCII. -/
def numericTable : RunTable Unit := runsOf Property.numeric

/-- The table of word characters outside ASCII. -/
def wordTable : RunTable Unit := rangesOf Property.word

def isAlphabetic (c : Char) : Bool :=
  if c.toNat < 0x80 then c.isAlpha else alphabeticTable.holds c

/-- Whether a character is a digit or another numeral. -/
def isNumeral (c : Char) : Bool :=
  if c.toNat < 0x80 then c.isDigit else numericTable.holds c

def isAlphanumeric (c : Char) : Bool := isAlphabetic c || isNumeral c

/-- Whether a character may stand inside an identifier. -/
def isNameChar (c : Char) : Bool := isAlphanumeric c || c = '_'

/-- Whether a character belongs to a word of running text, which is what word boundaries go by. -/
def isWordChar (c : Char) : Bool :=
  if c.toNat < 0x80 then c.isAlphanum || c = '_' else wordTable.holds c

end Credence.Text
