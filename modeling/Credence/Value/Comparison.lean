import Credence.Value.Basic

/-!
# Comparing values

The language of conditions compares values in three ways.

* `looseEq` is `==`: a text is equal to an instance or a concept of that name, to the number it
  spells, and booleans are equal to one and zero.
* `identical` is `is`: references must point to the same thing.
* `compare?` orders two texts, two dates, or two values that can be read as numbers.
-/

namespace Credence.Value

def spells (s : String) (x : Float) : Bool :=
  match asNumber? (text s) with
  | some y => y == x
  | none => false

/-- Equality across kinds of values. -/
def looseEq : Value → Value → Bool
  | inst key, text s | text s, inst key => key.name == s
  | concept name, text s | text s, concept name => name == s
  | number x, text s | text s, number x => spells s x
  | bool b, number x | number x, bool b => indicator b == x
  | a, b => a == b

/-- Whether two values are one and the same. -/
def identical : Value → Value → Bool
  | inst a, inst b => a == b
  | concept a, concept b => a == b
  | inst _, _ | _, inst _ | concept _, _ | _, concept _ => false
  | a, b => a == b

/-- The order of two numbers, none if one of them is undefined. -/
def compareNumbers? (x y : Float) : Option Ordering :=
  if x < y then some .lt else if y < x then some .gt else if x == y then some .eq else none

/-- The order of two values, none if they have none. -/
def compare? : Value → Value → Option Ordering
  | text a, text b => some (compare a b)
  | date a, date b => some (compare a b)
  | a, b => do compareNumbers? (← asNumber? a) (← asNumber? b)

end Credence.Value
