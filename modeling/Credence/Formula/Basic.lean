/-!
# Formulas

A formula is an algebraic expression over variables of one letter.  It is evaluated by giving values
to its variables, which are counted in the order in which they first appear.
-/

namespace Credence

inductive Operation where
  | add
  | sub
  | mul
  | div
  | pow
deriving DecidableEq, Repr

/-- An algebraic expression. -/
inductive Formula where
  | number (x : Float)
  | var (letter : Char)
  | negate (inner : Formula)
  | combine (op : Operation) (left right : Formula)
deriving BEq, Repr, Inhabited

def Operation.symbol : Operation → Char
  | add => '+'
  | sub => '-'
  | mul => '*'
  | div => '/'
  | pow => '^'

def Operation.apply : Operation → Float → Float → Float
  | add, a, b => a + b
  | sub, a, b => a - b
  | mul, a, b => a * b
  | div, a, b => a / b
  | pow, a, b => Float.pow a b

namespace Formula

/-- Adds the variables of a formula that a list does not have yet, in order of appearance. -/
def addVars : Formula → List Char → List Char
  | number _, seen => seen
  | var v, seen => if v ∈ seen then seen else seen ++ [v]
  | negate inner, seen => inner.addVars seen
  | combine _ left right, seen => right.addVars (left.addVars seen)

/-- The variables in order of first appearance, each once. -/
def vars (f : Formula) : List Char := f.addVars []

/-- The value of a formula; the first binding of a letter counts, and one without any is zero. -/
def evaluate (bindings : List (Char × Float)) : Formula → Float
  | number x => x
  | var v => (bindings.lookup v).getD 0
  | negate inner => -inner.evaluate bindings
  | combine op left right => op.apply (left.evaluate bindings) (right.evaluate bindings)

end Formula

end Credence
