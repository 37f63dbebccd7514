import Credence.Condition.Malformed

/-!
# Parentheses and quotations

Before a condition is read by its grammar, its parentheses are counted.  Those inside a quotation do
not count, and a backslash inside a quotation hides the character after it.
-/

namespace Credence.Expr

/-- How far the count has come. -/
structure Brackets where
  /-- The parentheses that are open. -/
  depth : Nat := 0
  /-- The quote that closes the quotation, inside of one. -/
  quote : Option Char := none
  /-- Whether the character before was a backslash that hides this one. -/
  hidden : Bool := false
deriving DecidableEq, Repr

namespace Brackets

/-- Takes account of one more character; none if it closes a parenthesis that was never opened. -/
def step? (b : Brackets) (c : Char) : Option Brackets :=
  match b.quote with
  | some q =>
    if b.hidden then some { b with hidden := false }
    else if c = '\\' then some { b with hidden := true }
    else if c = q then some { b with quote := none }
    else some b
  | none =>
    if c = '\x27' ∨ c = '\x22' then some { b with quote := some c }
    else if c = '(' then some { b with depth := b.depth + 1 }
    else if c = ')' then
      match b.depth with
      | 0 => none
      | depth + 1 => some { b with depth }
    else some b

/-- Counts through a text that begins at an offset. -/
def scan (b : Brackets) (offset : Nat) : List Char → Except Malformed Unit
  | [] => if b.depth = 0 then .ok () else .error (.unclosed b.depth)
  | c :: rest =>
    match b.step? c with
    | some b' => b'.scan (offset + c.utf8Size) rest
    | none => .error (.unmatched offset)

end Brackets

/-- Whether every parenthesis outside of quotations has its partner. -/
def checkBrackets (text : List Char) : Except Malformed Unit := Brackets.scan {} 0 text

end Credence.Expr
