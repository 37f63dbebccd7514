import Credence.Formula.Parser

/-!
# Why a text is no condition

The reasons, and their wording in one place.
-/

namespace Credence.Expr

/-- Why a text is no condition.  Offsets count bytes from the start of the text. -/
inductive Malformed where
  | empty
  | unmatched (offset : Nat)
  /-- Opening parentheses that are never closed. -/
  | unclosed (count : Nat)
  | unexpected (c : Char) (offset : Nat)
  | ended
  /-- A single `=` that begins no relation. -/
  | relationForm
  /-- A point with no name after it. -/
  | memberName
  /-- A quotation that is never closed. -/
  | unterminated
  /-- A tag without its closing bracket, or an empty one. -/
  | tag
  /-- A `#` with no name after it. -/
  | conceptName
  | unknownFunction (name : String)
  /-- A function that does not take these arguments. -/
  | signature (name : String) (count : Nat)
  /-- An `f` without arguments. -/
  | noFormula
  | formula (cause : Formula.Malformed)
  /-- A formula with more or fewer variables than values. -/
  | arity (vars values : Nat)
deriving DecidableEq, Repr

def Malformed.message : Malformed → String
  | empty => "empty logic"
  | unmatched offset => "unmatched ')' at offset " ++ toString offset
  | unclosed count => toString count ++ " unclosed '('"
  | unexpected c offset => "unexpected '" ++ c.toString ++ "' at offset " ++ toString offset
  | ended => "expression ended unexpectedly"
  | relationForm => "a relation must be written A=relation=B"
  | memberName => "expected a property or method name after '.'"
  | unterminated => "unterminated string literal"
  | tag => "malformed parameter tag, expected #[tag]Name"
  | conceptName => "expected a concept name after '#'"
  | unknownFunction name => "unknown built-in '" ++ name ++ "'"
  | signature name count => "unknown built-in signature " ++ name ++ "/" ++ toString count
  | noFormula => "f() needs an expression argument"
  | formula cause => cause.message
  | arity vars values =>
    "f() expression binds " ++ toString vars ++ " variables but received " ++ toString values
      ++ " values"

end Credence.Expr
