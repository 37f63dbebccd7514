import Credence.Condition.Brackets
import Credence.Condition.Expr
import Credence.Text.Letter

/-!
# Reading conditions

From the weakest to the strongest:

* `or`;
* `and`;
* `==`, `!=`, `>=`, `<=`, `>`, `<`, `is not`, `is`;
* `+` and `-`;
* `*`, `/`, `//`, `%`;
* the minus sign;
* `**`, which takes a signed exponent and so groups to the right;
* the relations `A=name=B` and, negated, `A-name-B`;
* `A.name` and `A.name(…)`;
* numbers, quotations, `%`, `@`, `#Name`, `#[tag]Name`, `#Name(…)`, functions, words and
  parentheses.

The operators group to the left.  A word that names no function stands for itself as a text.

The grammar calls itself inside parentheses, after a minus sign and in an exponent.  `calls n` is
the grammar with `n` such calls left; each of them stands behind a character that was consumed, so
the length of the text is enough, and `calls 0` is only ever asked about the empty text.
-/

namespace Credence.Expr

namespace Grammar

open Credence.Parser

/-- A parser of parts of a condition. -/
abbrev Rule := Parser Malformed

/-- What the grammar calls itself for. -/
structure Calls where
  /-- A whole condition, as in parentheses or between commas. -/
  whole : Rule Expr
  /-- An operand with its signs, as after a sign or in an exponent. -/
  signed : Rule Expr

/-! ## Words -/

/-- The words that are operators and cannot be names. -/
def reserved : List (List Char) := ["and", "or", "is", "not"].map String.toList

/-- A given word, with no further letter after it. -/
def keyword (word : String) : Rule Unit := do
  exactly word.toList
  notAhead (charWhere Text.isNameChar)

/-- A letter or underscore and the letters, numerals and underscores after it. -/
def nameChars : Rule (List Char) := do
  let first ← charWhere fun c => Text.isAlphabetic c || c = '_'
  let rest ← spanWhere Text.isNameChar
  return first :: rest

/-- A name that is no operator. -/
def identifier : Rule String := fun s =>
  match nameChars s with
  | .success name rest =>
    if name ∈ reserved then .refusal s none else .success (String.ofList name) rest
  | .refusal place reason => .refusal place reason
  | .failure place reason => .failure place reason

/-! ## Operators -/

def sign (text : String) (op : Operator) : Rule Operator := do
  exactly text.toList
  return op

def orSign : Rule Operator := do
  keyword "or"
  return .or

def andSign : Rule Operator := do
  keyword "and"
  return .and

def comparisonSign : Rule Operator := firstOf [
  sign "==" .eq,
  sign "!=" .ne,
  sign ">=" .ge,
  sign "<=" .le,
  sign ">" .gt,
  sign "<" .lt,
  (do
    keyword "is"
    let _ ← spanWhere Text.isGap
    keyword "not"
    return .isNot),
  (do
    keyword "is"
    return .is)]

def sumSign : Rule Operator := firstOf [sign "+" .add, sign "-" .sub]

/-- The sign of a product or a quotient; a second star would make a power. -/
def productSign : Rule Operator := firstOf [
  sign "//" .floorDiv,
  sign "/" .div,
  (do
    let _ ← char '*'
    notAhead (char '*')
    return .mul),
  sign "%" .mod]

/-! ## Atoms -/

/-- A number: digits, and perhaps a point and more digits. -/
def number : Rule Expr := do
  let whole ← someWhere Decimal.isDigit
  let fraction ← optional? do
    let _ ← char '.'
    someWhere Decimal.isDigit
  let digits := match fraction with
    | some fraction => whole ++ '.' :: fraction
    | none => whole
  return .number ((Decimal.readChars? digits).getD 0)

/-- One character of a quotation, which may be hidden behind a backslash. -/
def quotedChar (quote : Char) : Rule Char :=
  orElse
    (do
      let _ ← char '\\'
      charWhere fun _ => true)
    (charWhere fun c => c ≠ quote && c ≠ '\\')

/-- A quotation in single or double quotes. -/
def quotation : Rule Expr := do
  let quote ← orElse (char '\x27') (char '\x22')
  let content ← repeated (quotedChar quote)
  let _ ← expecting .unterminated (char quote)
  return .text (String.ofList content)

/-- Arguments in parentheses, each with the text it was read from. -/
def arguments (inner : Calls) : Rule (List (List Char × Expr)) := do
  let _ ← spaced (char '(')
  match ← optional? (spaced (char ')')) with
  | some _ => return []
  | none =>
    let first ← committed (withSource inner.whole)
    let rest ← repeated do
      let _ ← spaced (char ',')
      committed (withSource inner.whole)
    let _ ← committed (spaced (char ')'))
    return first :: rest

/-- A parameter or a value made by a concept. -/
def hash (inner : Calls) : Rule Expr := do
  let _ ← char '#'
  let tag ← optional? do
    let _ ← char '['
    expecting .tag do
      let tag ← someWhere Text.isNameChar
      let _ ← char ']'
      return String.ofList tag
  let name ← expecting .conceptName (someWhere Text.isNameChar)
  let concept := String.ofList name
  match tag with
  | some tag => return .slot (.param concept (some tag))
  | none =>
    ifAhead (spaced (char '('))
      (do
        let args ← arguments inner
        return .construct concept (args.map (·.2)))
      (return .slot (.param concept none))

/-- The formula of an `f`: the last argument, as a quotation or as it stands, over the values of the
others. -/
def formulaOf (args : List (List Char × Expr)) : Except Malformed Expr :=
  match args.getLast? with
  | none => .error .noFormula
  | some (source, last) =>
    let source := match last with
      | .text s => s.toList
      | _ => Text.trimChars source
    let values := args.dropLast.map (·.2)
    match Formula.parse source with
    | .error cause => .error (.formula cause)
    | .ok body =>
      let vars := body.vars
      if vars.length = values.length then
        .ok (.formula values body (String.ofList source))
      else .error (.arity vars.length values.length)

/-- Whether a function takes these arguments. -/
def takes : Builtin → List Expr → Bool
  | .is, args | .isNot, args | .eq, args | .eqNot, args => args.length == 2
  | .approx, args => args.length == 3
  | .facts, [.relation _ _ _ _] => true
  | .facts, _ => false
  | .count, .slot (.param _ _) :: _ => true
  | .count, .relation _ _ _ _ :: _ => true
  | .count, _ => false

/-- The call of a function by its name. -/
def call (name : String) (args : List (List Char × Expr)) : Except Malformed Expr :=
  if name = "f" then formulaOf args
  else
    match Builtin.ofName? name with
    | none => .error (.unknownFunction name)
    | some function =>
      let values := args.map (·.2)
      if takes function values then .ok (.builtin function values)
      else .error (.signature function.name values.length)

/-- A word, which is a function if arguments follow and a text if not. -/
def word (inner : Calls) : Rule Expr := fun s =>
  let name : Rule String := orElse (do keyword "is"; return "is") identifier
  let named : Rule Expr := do
    let name ← name
    ifAhead (spaced (char '('))
      (do
        let args ← arguments inner
        match call name args with
        | .ok e => return e
        | .error reason => failAt s reason)
      (if name = "is" then refuse else return .text name)
  named s

def enclosed (inner : Calls) : Rule Expr := do
  let _ ← char '('
  let e ← inner.whole
  let _ ← committed (spaced (char ')'))
  return e

/-- What needs no operator. -/
def atom (inner : Calls) : Rule Expr := spaced <| firstOf [
  number,
  quotation,
  (do
    let _ ← char '%'
    return .slot .domain),
  (do
    let _ ← char '@'
    return .slot .target),
  hash inner,
  word inner,
  enclosed inner]

/-! ## Operands -/

/-- A property or a method, as what it makes of the subject before it. -/
def access (inner : Calls) : Rule (Expr → Expr) := do
  let _ ← spaced (char '.')
  let name ← expecting .memberName (spaced identifier)
  match ← optional? (arguments inner) with
  | some args => return fun subject => .method subject name (args.map (·.2))
  | none => return fun subject => .property subject name

/-- An atom with its properties and methods. -/
def subject (inner : Calls) : Rule Expr := do
  let first ← atom inner
  let steps ← repeated (access inner)
  return steps.foldl (fun e step => step e) first

/-- A single `=`. -/
def loneEquals : Rule Unit := do
  let _ ← char '='
  notAhead (char '=')

/-- The name of a relation between two signs of a kind. -/
def between (mark : Rule Unit) : Rule String := do
  spaced mark
  let name ← spaced identifier
  spaced mark
  return name

/-- The name of a relation, and whether it is negated. -/
def link : Rule (String × Bool) :=
  orElse
    (do
      let name ← between loneEquals
      return (name, false))
    (do
      let name ← between (exactly ['-'])
      return (name, true))

/-- A subject, or a relation between two. -/
def relational (inner : Calls) : Rule Expr := do
  let domain ← subject inner
  match ← optional? link with
  | some (name, negated) =>
    let target ← committed (subject inner)
    return .relation name domain target negated
  | none =>
    -- there is no assignment: a single sign can only be a broken relation
    ifAhead (spaced loneEquals) (expecting .relationForm refuse) (return domain)

/-- A relational operand with an optional exponent. -/
def power (inner : Calls) : Rule Expr := do
  let base ← relational inner
  let exponent ← optional? do
    spaced (exactly ['*', '*'])
    committed inner.signed
  return match exponent with
    | some e => .binary .pow base e
    | none => base

/-- An operand with any number of minus signs before it. -/
def signed (inner : Calls) : Rule Expr :=
  orElse
    (do
      let _ ← spaced (char '-')
      let e ← committed inner.signed
      return .negate e)
    (power inner)

/-! ## Levels of operators -/

/-- Operands with product signs. -/
def product (inner : Calls) : Rule Expr := leftGrouped .binary (signed inner) productSign

def sum (inner : Calls) : Rule Expr := leftGrouped .binary (product inner) sumSign

def comparison (inner : Calls) : Rule Expr := leftGrouped .binary (sum inner) comparisonSign

def conjunction (inner : Calls) : Rule Expr := leftGrouped .binary (comparison inner) andSign

def disjunction (inner : Calls) : Rule Expr := leftGrouped .binary (conjunction inner) orSign

/-- The grammar with a number of nested calls left. -/
def calls : Nat → Calls
  | 0 => ⟨refuse, refuse⟩
  | n + 1 => let inner := calls n; ⟨disjunction inner, signed inner⟩

/-- A condition with gaps around it, in a text of a given length. -/
def condition (length : Nat) : Rule Expr := toEnd (spaced (calls (length + 1)).whole)

end Grammar

/-- Why reading stopped at a place: the reason known there, or the character that stands there. -/
def blame (text place : List Char) (reason : Option Malformed) : Malformed :=
  match reason with
  | some reason => reason
  | none =>
    let rest := Text.trimLeft place
    match rest with
    | c :: _ => .unexpected c (Text.byteLength text - Text.byteLength rest)
    | [] => .ended

/-- Reads a text as a condition. -/
def parse (logic : String) : Except Malformed Expr := do
  let text := logic.toList
  if Text.trimLeft text = [] then throw .empty
  checkBrackets text
  match Grammar.condition text.length text with
  | .success e _ => return e
  | .refusal place reason | .failure place reason => throw (blame text place reason)

end Credence.Expr
