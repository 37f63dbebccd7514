/-!
# Patterns of texts

A pattern says what a text may look like: one character of a kind, one pattern followed by another,
or a pattern repeated.  The front of a text may fit a pattern in several ways.  `Pattern.ways` lists
them in the order in which they are tried, in which a repetition first takes as many rounds as it
can.  Whoever needs a certain continuation goes back to the next way when one does not lead there.
-/

namespace Credence.Text

/-- What a text may look like. -/
inductive Pattern where
  /-- One character of a kind. -/
  | one (kind : Char → Bool)
  /-- One pattern and then another. -/
  | seq (first second : Pattern)
  /-- A pattern any number of times. -/
  | many (round : Pattern)

namespace Pattern

def char (c : Char) : Pattern := one (· = c)

/-- A pattern at least `n` times. -/
def atLeast : Nat → Pattern → Pattern
  | 0, p => many p
  | n + 1, p => seq p (atLeast n p)

/-- The ways to take at most `n` rounds off a text, none of them empty. -/
def rounds (ways : List Char → List (List Char × List Char)) :
    Nat → List Char → List (List Char × List Char)
  | 0, text => [([], text)]
  | n + 1, text =>
    ((ways text).flatMap fun (taken, rest) =>
      if taken = [] then []
      else (rounds ways n rest).map fun (more, rest) => (taken ++ more, rest)) ++ [([], text)]

/-- The ways to take a text that fits off the front of a text: what is taken, and what is left. -/
def ways : Pattern → List Char → List (List Char × List Char)
  | one _, [] => []
  | one kind, c :: rest => if kind c then [([c], rest)] else []
  | seq p q, text =>
    (ways p text).flatMap fun (taken, rest) =>
      (ways q rest).map fun (more, rest) => (taken ++ more, rest)
  -- a text does not have more rounds than characters
  | many p, text => rounds (ways p) text.length text

end Pattern

end Credence.Text
