import Credence.Json.Basic

/-!
# Documents as far as they can be read

A text may stop being a document anywhere.  A `Draft` is what can be read of it: a tree in which the
place of the fault is marked, so that whoever takes the tree apart from front to back meets the
fault where the text has it, after everything that stands before it.

A fault in a string or a number that concerns only its value is marked apart, because whoever does
not need the value does not meet it.
-/

namespace Credence.Json

/-- A document as far as it can be read. -/
inductive Draft where
  /-- The place where nothing more can be read. -/
  | broken
  | null
  | bool (b : Bool)
  | integer (n : Int)
  /-- A number, none if it is too large to have a value. -/
  | number (x : Option Float)
  /-- A text, none if it names half of a character. -/
  | text (s : Option String)
  /-- A list at a depth, and whether its end was read. -/
  | list (depth : Nat) (items : List Draft) (closed : Bool)
  /-- An object at a depth, and whether its end was read. -/
  | object (depth : Nat) (fields : List (Option String × Draft)) (closed : Bool)
deriving Inhabited

namespace Draft

mutual

/-- Whether a draft has the form of a document, whatever its values. -/
def wellFormed : Draft → Bool
  | broken => false
  | list _ items closed => allWellFormed items && closed
  | object _ fields closed => fieldsWellFormed fields && closed
  | null | bool _ | integer _ | number _ | text _ => true

def allWellFormed : List Draft → Bool
  | [] => true
  | item :: rest => wellFormed item && allWellFormed rest

def fieldsWellFormed : List (Option String × Draft) → Bool
  | [] => true
  | (_, value) :: rest => wellFormed value && fieldsWellFormed rest

end

mutual

/-- The document that a draft without faults is. -/
def toJson? : Draft → Option Json
  | broken => none
  | null => some .null
  | bool b => some (.bool b)
  | integer n => some (.integer n)
  | number x => x.map .number
  | text s => s.map .text
  | list _ items closed => if closed then (itemsToJson? items).map .list else none
  | object _ fields closed => if closed then (fieldsToJson? fields).map .object else none

def itemsToJson? : List Draft → Option (List Json)
  | [] => some []
  | item :: rest => do
    let j ← toJson? item
    let js ← itemsToJson? rest
    return j :: js

def fieldsToJson? : List (Option String × Draft) → Option (List (String × Json))
  | [] => some []
  | (key, value) :: rest => do
    let k ← key
    let j ← toJson? value
    let js ← fieldsToJson? rest
    return (k, j) :: js

end

end Draft

end Credence.Json
