/-!
# Blanks

Two notions of blank are in use.  A *blank* is any character that Unicode calls white space; texts
are trimmed of blanks.  A *gap* is one of the four characters that may stand between the tokens of
a formula or a document.
-/

namespace Credence.Text

/-- White space in the sense of Unicode. -/
def isBlank (c : Char) : Bool :=
  let n := c.toNat
  (9 ≤ n && n ≤ 13) || n == 0x20 || n == 0x85 || n == 0xA0 || n == 0x1680
    || (0x2000 ≤ n && n ≤ 0x200A) || n == 0x2028 || n == 0x2029 || n == 0x202F || n == 0x205F
    || n == 0x3000

/-- Space, tab, line feed and carriage return: what may stand between tokens. -/
def isGap (c : Char) : Bool := c = ' ' || c = '\t' || c = '\n' || c = '\r'

/-- A text without its leading blanks. -/
def trimLeft (text : List Char) : List Char := text.dropWhile isBlank

/-- A text without its leading and trailing blanks. -/
def trimChars (text : List Char) : List Char :=
  ((trimLeft text).reverse.dropWhile isBlank).reverse

def trim (s : String) : String := String.ofList (trimChars s.toList)

/-- A text without its leading gap. -/
def skipGap (text : List Char) : List Char := text.dropWhile isGap

/-- The number of bytes that a text takes in UTF-8. -/
def byteLength : List Char → Nat
  | [] => 0
  | c :: rest => c.utf8Size + byteLength rest

end Credence.Text
