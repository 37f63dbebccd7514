import Credence.Value.InstanceKey
import Credence.Confidence.Basic
import Credence.Calendar.DateText
import Credence.Decimal.Reading
import Credence.Text.Blank
import Credence.Text.Quoted

/-!
# Values

A value is what a property holds and what a condition evaluates to.  This module has the type, the
written form, and the three readings of a value that conditions use: as true or false, as a
confidence between 0 and 1, and as a number.
-/

namespace Credence

/-- What a property may hold and a condition may evaluate to. -/
inductive Value where
  /-- Nothing known. -/
  | null
  | bool (b : Bool)
  | number (x : Float)
  | text (s : String)
  | date (d : Date)
  /-- A concept, by name. -/
  | concept (name : String)
  /-- A registered instance, by key. -/
  | inst (key : InstanceKey)
  | list (items : List Value)
deriving Inhabited

/-- The properties of an instance, by name. -/
abbrev Properties := Table String Value

namespace Value

/-! ## Equality

Values are equal when they have the same shape and equal contents; numbers compare as numbers, so
that a value that holds an undefined number differs from itself. -/

mutual

def eq : Value → Value → Bool
  | null, null => true
  | bool a, bool b => a == b
  | number a, number b => a == b
  | text a, text b => a == b
  | date a, date b => a == b
  | concept a, concept b => a == b
  | inst a, inst b => a == b
  | list a, list b => eqList a b
  | _, _ => false

def eqList : List Value → List Value → Bool
  | [], [] => true
  | a :: as, b :: bs => eq a b && eqList as bs
  | _, _ => false

end

instance : BEq Value := ⟨eq⟩

def ofInt (n : Int) : Value := number (Decimal.ofInt n)

def isNull : Value → Bool
  | null => true
  | _ => false

/-! ## Readings -/

/-- What a condition takes for true: anything but null, false, zero, an undefined number, the empty
text and the empty list. -/
def truthy : Value → Bool
  | null => false
  | bool b => b
  | number x => x != 0 && x == x
  | text s => s != ""
  | list items => !items.isEmpty
  | date _ | concept _ | inst _ => true

/-- One for true and zero for false. -/
def indicator (b : Bool) : Float := if b then 1 else 0

/-- The confidence that a value stands for: a number is held between zero and one, and anything else
counts as one or zero. -/
def asConfidence : Value → Float
  | number x => if x == x then clamp x else 0
  | v => indicator v.truthy

/-- The number that a value stands for: itself, one or zero for a boolean, or what a text spells. -/
def asNumber? : Value → Option Float
  | number x => some x
  | bool b => some (indicator b)
  | text s => Decimal.readChars? (Text.trimChars s.toList)
  | _ => none

/-- The number that a value enters arithmetic with: texts are not read. -/
def numeric? : Value → Option Float
  | number x => some x
  | bool b => some (indicator b)
  | _ => none

def asText? : Value → Option String
  | text s => some s
  | _ => none

def asInstance? : Value → Option InstanceKey
  | inst key => some key
  | _ => none

/-- The date that a value stands for: itself, or what a text or the name of an instance spells. -/
def asDate? : Value → Option Date
  | date d => some d
  | text s => Date.read? s
  | inst key => Date.read? key.name
  | _ => none

/-! ## Written form -/

mutual

def toText : Value → String
  | null => "null"
  | bool b => if b then "true" else "false"
  | number x => Decimal.plain x
  | text s => Text.quote s
  | date d => d.toText
  | concept name => "#" ++ name
  | inst key => key.toText
  | list items => "[" ++ listText items ++ "]"

def listText : List Value → String
  | [] => ""
  | [v] => toText v
  | v :: rest => toText v ++ ", " ++ listText rest

end

end Value

end Credence
