import Credence.Text.RangeTable
import Credence.Text.Property.Casing
import Credence.Text.Property.Lowercase
import Credence.Text.Property.Folding

/-!
# Lower case and case folding

`lowercase` maps a text to lower case, with the two rules that look beyond one character: a capital
sigma at the end of a word becomes `ς`, and `İ` becomes an `i` with a dot above.  `fold` is simple
case folding: two characters are the same but for case when they fold to the same one.
-/

namespace Credence.Text

/-- The table of lower-case mappings outside ASCII. -/
def lowercaseTable : RunTable Shift := shiftsOf Property.lowercase

/-- The table of simple case foldings outside ASCII. -/
def foldingTable : RunTable Shift := shiftsOf Property.folding

/-- The table of cased characters outside ASCII. -/
def casedTable : RunTable Unit := rangesOf Property.cased

/-- The table of characters that case mapping looks past, outside ASCII. -/
def caseIgnorableTable : RunTable Unit := rangesOf Property.caseIgnorable

/-- Whether a character has case. -/
def isCased (c : Char) : Bool :=
  if c.toNat < 0x80 then c.isAlpha else casedTable.holds c

/-- Whether case mapping looks past a character. -/
def isCaseIgnorable (c : Char) : Bool :=
  if c.toNat < 0x80 then c ∈ ['\x27', '.', ':', '^', '\x60'] else caseIgnorableTable.holds c

/-- Whether the first character that case mapping does not look past has case. -/
def meetsCased (text : List Char) : Bool :=
  match text.dropWhile isCaseIgnorable with
  | c :: _ => isCased c
  | [] => false

/-- The lower-case form of a character that stands alone. -/
def lowerChar (c : Char) : List Char :=
  if c.toNat < 0x80 then [c.toLower]
  else if c = '\u0130' then ['i', '\u0307']
  else [lowercaseTable.map c]

/-- Lower case of a text, given what stands before it, last character first. -/
def lowerFrom : List Char → List Char → List Char
  | _, [] => []
  | before, c :: rest =>
    -- sigma has another form at the end of a word
    (if c = '\u03A3' then
        [if meetsCased before && !meetsCased rest then '\u03C2' else '\u03C3']
      else lowerChar c) ++ lowerFrom (c :: before) rest

/-- Lower case of a text. -/
def lowercaseChars (text : List Char) : List Char := lowerFrom [] text

def lowercase (s : String) : String := String.ofList (lowercaseChars s.toList)

/-- The simple case folding of a character. -/
def fold (c : Char) : Char :=
  if c.toNat < 0x80 then c.toLower else foldingTable.map c

/-- Whether two characters are the same but for case. -/
def sameLetter (a b : Char) : Bool := fold a = fold b

end Credence.Text
