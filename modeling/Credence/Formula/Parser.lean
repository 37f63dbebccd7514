import Credence.Formula.Basic
import Credence.Parsing.Parser
import Credence.Decimal.Reading

/-!
# Reading formulas

From the weakest to the strongest: `+` and `-`; `*` and `/`; the minus sign; the power, written `^`
or `**`.  Sums and products group to the left, a power takes a signed exponent and so groups to the
right.

The grammar calls itself inside parentheses, after a minus sign and in an exponent.  `calls n` is
the grammar with `n` such calls left; each of them stands behind a character that was consumed, so
the length of the text is enough, and `calls 0` is only ever asked about the empty text.
-/

namespace Credence.Formula

/-- Why a text is no formula. -/
inductive Malformed where
  | unexpected (c : Char)
  | ended
deriving DecidableEq, Repr

def Malformed.message : Malformed → String
  | unexpected c => "unexpected '" ++ c.toString ++ "' in formula"
  | ended => "formula ended unexpectedly"

namespace Grammar

open Credence.Parser

/-- A parser of formulas; the place of an error is all there is to say. -/
abbrev Rule := Parser Empty Formula

/-- What the grammar calls itself for. -/
structure Calls where
  /-- A formula in parentheses. -/
  sum : Rule
  /-- An operand with its signs, as after a sign or in an exponent. -/
  signed : Rule

/-- Digits and points that spell a number. -/
def literal : Rule := fun s =>
  match (someWhere (fun c => Decimal.isDigit c || c = '.') : Parser Empty _) s with
  | .success digits rest =>
    match Decimal.readChars? digits with
    | some x => .success (.number x) rest
    | none => .refusal s none
  | .refusal place reason => .refusal place reason
  | .failure place reason => .failure place reason

/-- One letter that no letter or digit follows. -/
def letter : Rule := do
  let v ← charWhere Char.isAlpha
  notAhead (charWhere Char.isAlphanum)
  return .var v

def enclosed (inner : Calls) : Rule := do
  let _ ← char '('
  let f ← inner.sum
  let _ ← committed (spaced (char ')'))
  return f

/-- A number, a variable or a formula in parentheses. -/
def atom (inner : Calls) : Rule :=
  spaced (orElse (enclosed inner) (orElse literal letter))

def powerSign : Parser Empty Unit := orElse (exactly ['^']) (exactly ['*', '*'])

/-- An atom with an optional exponent. -/
def power (inner : Calls) : Rule := do
  let base ← atom inner
  let exponent ← optional? do
    spaced powerSign
    committed inner.signed
  return match exponent with
    | some e => .combine .pow base e
    | none => base

/-- An operand with any number of minus signs before it. -/
def signed (inner : Calls) : Rule :=
  orElse
    (do
      let _ ← spaced (char '-')
      let f ← committed inner.signed
      return .negate f)
    (power inner)

/-- The sign of a product, which a second star makes a power. -/
def productSign : Parser Empty Operation :=
  orElse (do let _ ← char '*'; notAhead (char '*'); return .mul) (do let _ ← char '/'; return .div)

/-- Operands with product signs. -/
def product (inner : Calls) : Rule := leftGrouped .combine (signed inner) productSign

def sumSign : Parser Empty Operation :=
  orElse (do let _ ← char '+'; return .add) (do let _ ← char '-'; return .sub)

def sum (inner : Calls) : Rule := leftGrouped .combine (product inner) sumSign

/-- The grammar with a number of nested calls left. -/
def calls : Nat → Calls
  | 0 => ⟨refuse, refuse⟩
  | n + 1 => let inner := calls n; ⟨sum inner, signed inner⟩

/-- A formula with gaps around it, in a text of a given length. -/
def whole (length : Nat) : Rule := toEnd (spaced (calls (length + 1)).sum)

end Grammar

/-- What stands where no formula could be read on. -/
def blame (place : List Char) : Malformed :=
  match Text.trimLeft place with
  | c :: _ => .unexpected c
  | [] => .ended

/-- Reads a text as a formula. -/
def parse (source : List Char) : Except Malformed Formula :=
  match Grammar.whole source.length source with
  | .success f _ => .ok f
  | .refusal place _ => .error (blame place)
  | .failure place _ => .error (blame place)

end Credence.Formula
