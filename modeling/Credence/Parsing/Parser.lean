import Credence.Text.Blank

/-!
# Parsers

A parser takes the text that lies ahead and comes to one of three outcomes: it succeeds with a value
and the text left over, it *refuses*, after which another alternative may be tried at the same
place, or it *fails* for good.  An outcome without success tells where it arose, as the text that
was ahead there, and why, if there is more to say than that the next character was not expected.

`repeated` takes as many turns as there are characters ahead; since a turn that succeeds consumes
one, the bound is never what stops it.
-/

namespace Credence

/-- What a parser comes to; `ε` is the type of reasons. -/
inductive Outcome (ε α : Type) where
  /-- Success, with the text left over. -/
  | success (value : α) (rest : List Char)
  /-- No success here; another alternative may succeed. -/
  | refusal (place : List Char) (reason : Option ε)
  /-- No success, and no alternative is tried. -/
  | failure (place : List Char) (reason : Option ε)
deriving Repr

/-- A parser of values of a type. -/
def Parser (ε α : Type) : Type := List Char → Outcome ε α

namespace Parser

variable {ε α β : Type}

def pure (a : α) : Parser ε α := fun s => .success a s

/-- Runs a parser and then another that may depend on its value. -/
def bind (p : Parser ε α) (f : α → Parser ε β) : Parser ε β := fun s =>
  match p s with
  | .success a rest => f a rest
  | .refusal place reason => .refusal place reason
  | .failure place reason => .failure place reason

instance : Monad (Parser ε) where
  pure := pure
  bind := bind

/-- Refuses at the text ahead. -/
def refuse : Parser ε α := fun s => .refusal s none

/-- Fails at a place for a reason. -/
def failAt (place : List Char) (reason : ε) : Parser ε α := fun _ => .failure place (some reason)

/-- Tries the second parser where the first one refuses. -/
def orElse (p q : Parser ε α) : Parser ε α := fun s =>
  match p s with
  | .refusal _ _ => q s
  | outcome => outcome

/-- Turns a refusal into a failure: past this point there is no other reading. -/
def committed (p : Parser ε α) : Parser ε α := fun s =>
  match p s with
  | .refusal place reason => .failure place reason
  | outcome => outcome

/-- Succeeds with nothing where the parser refuses. -/
def optional? (p : Parser ε α) : Parser ε (Option α) := fun s =>
  match p s with
  | .success a rest => .success (some a) rest
  | .refusal _ _ => .success none s
  | .failure place reason => .failure place reason

/-- Whether a parser would succeed; nothing is consumed. -/
def accepts (p : Parser ε α) (s : List Char) : Bool :=
  match p s with
  | .success _ _ => true
  | _ => false

/-- Succeeds where the parser does not, consuming nothing. -/
def notAhead (p : Parser ε α) : Parser ε Unit := fun s =>
  if p.accepts s then .refusal s none else .success () s

/-- Fails for a reason where the parser does not succeed. -/
def expecting (reason : ε) (p : Parser ε α) : Parser ε α := fun s =>
  match p s with
  | .success a rest => .success a rest
  | _ => .failure s (some reason)

/-- Goes one way or the other by whether a parser would succeed here. -/
def ifAhead (p : Parser ε α) (yes no : Parser ε β) : Parser ε β := fun s =>
  if p.accepts s then yes s else no s

/-- Tries parsers in turn until one does not refuse. -/
def firstOf : List (Parser ε α) → Parser ε α
  | [] => refuse
  | [p] => p
  | p :: ps => orElse p (firstOf ps)

/-- The value of a parser with the text that it took. -/
def withSource (p : Parser ε α) : Parser ε (List Char × α) := fun s =>
  match p s with
  | .success a rest => .success (s.take (s.length - rest.length), a) rest
  | .refusal place reason => .refusal place reason
  | .failure place reason => .failure place reason

/-- Takes one character that passes a test. -/
def charWhere (test : Char → Bool) : Parser ε Char := fun s =>
  match s with
  | c :: rest => if test c then .success c rest else .refusal s none
  | [] => .refusal s none

def char (c : Char) : Parser ε Char := charWhere (· = c)

/-- Takes a given text. -/
def exactly (word : List Char) : Parser ε Unit := fun s =>
  if word.isPrefixOf s then .success () (s.drop word.length) else .refusal s none

/-- Takes every character up to the first that fails a test. -/
def spanWhere (test : Char → Bool) : Parser ε (List Char) := fun s =>
  .success (s.takeWhile test) (s.dropWhile test)

/-- Takes at least one character that passes a test, and all that follow. -/
def someWhere (test : Char → Bool) : Parser ε (List Char) := fun s =>
  match s.takeWhile test with
  | [] => .refusal s none
  | cs => .success cs (s.dropWhile test)

/-- Skips the gap before and after what a parser takes. -/
def spaced (p : Parser ε α) : Parser ε α := fun s =>
  match p (Text.skipGap s) with
  | .success a rest => .success a (Text.skipGap rest)
  | outcome => outcome

/-- At most a number of turns of a parser, up to the first that refuses. -/
def repeatedUpTo (p : Parser ε α) : Nat → Parser ε (List α)
  | 0, s => .success [] s
  | turns + 1, s =>
    match p s with
    | .success a rest =>
      match repeatedUpTo p turns rest with
      | .success as rest => .success (a :: as) rest
      | outcome => outcome
    | .refusal _ _ => .success [] s
    | .failure place reason => .failure place reason

/-- As many turns of a parser as succeed. -/
def repeated (p : Parser ε α) : Parser ε (List α) := fun s => repeatedUpTo p s.length s

/-- Operands with operators between them, grouped to the left. -/
def leftGrouped {ω : Type} (group : ω → α → α → α) (operand : Parser ε α) (operator : Parser ε ω) :
    Parser ε α := do
  let first ← operand
  let rest ← repeated do
    let o ← spaced operator
    let right ← committed operand
    return (o, right)
  return rest.foldl (fun left (o, right) => group o left right) first

/-- Succeeds only when nothing is left over. -/
def toEnd (p : Parser ε α) : Parser ε α := fun s =>
  match p s with
  | .success a [] => .success a []
  | .success _ rest => .refusal rest none
  | outcome => outcome

end Parser

end Credence
