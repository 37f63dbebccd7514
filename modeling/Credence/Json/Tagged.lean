import Credence.Json.Decoding

/-!
# Tagged values

A tagged value is an object with two fields, of which one names the kind of the value and the other
has its content.  Either may come first, and fields of other names are passed over; a field that
stands twice is a fault.  A kind may need no content.  A tagged value may also be written as a list
of the two.

Content that comes first must be sound throughout, since nothing says yet what it is.  It is put
aside until the kind is known, and the tagged values inside it have some liberties: a kind that is
chosen by an object may have an empty object for its null, and a kind at the front of a list may be
given by its number.
-/

namespace Credence.Json

/-- Where a tagged value stands. -/
inductive Place where
  /-- In the text as it is read. -/
  | ahead
  /-- In a content that was put aside. -/
  | aside
deriving DecidableEq, Repr

/-- How the tagged values of a type are read. -/
structure Tagging (κ α : Type) where
  /-- The name of the field with the kind. -/
  tag : String
  /-- The name of the field with the content. -/
  content : String
  /-- The kind of a name. -/
  ofName? : String → Option κ
  /-- The kind of a number. -/
  ofNumber? : Nat → Option κ
  /-- Reads the content of a kind at a place. -/
  value : Place → κ → Decoder α
  /-- The value of a kind without content. -/
  bare : κ → Option α

namespace Draft

mutual

/-- Whether no list and no object is nested too deep. -/
def isShallow : Draft → Bool
  | list depth items _ => decide (depth < nestingLimit) && allShallow items
  | object depth fields _ => decide (depth < nestingLimit) && fieldsShallow fields
  | broken | null | bool _ | integer _ | number _ | text _ => true

def allShallow : List Draft → Bool
  | [] => true
  | item :: rest => isShallow item && allShallow rest

def fieldsShallow : List (Option String × Draft) → Bool
  | [] => true
  | (_, value) :: rest => isShallow value && fieldsShallow rest

end

/-- Whether a draft is a document without any fault. -/
def isSound (d : Draft) : Bool := d.toJson?.isSome && d.isShallow

end Draft

namespace Tagging

variable {κ α : Type} (t : Tagging κ α)

/-- Reads the kind that is the value of a field. -/
def kindInField : Place → Decoder κ
  | .ahead => Draft.asNamed t.ofName?
  | .aside => Draft.asNamedOr Draft.asNothing t.ofName?

/-- Reads the kind at the front of a list. -/
def kindInFront : Place → Decoder κ
  | .aside, .integer n =>
    match n.toNat?.bind t.ofNumber? with
    | some k => .ok k
    | none => .error .unfit
  | _, d => Draft.asMeant t.ofName? d

/-- The next field that has the name of the tag or of the content, with the fields behind it. -/
def next (closed : Bool) : List (Option String × Draft) →
    Decoded (Option (String × Draft × List (Option String × Draft)))
  | [] => Draft.atEnd closed none
  | (none, _) :: _ => .error .unreadable
  | (some name, d) :: rest =>
    if name = t.tag ∨ name = t.content then .ok (some (name, d, rest))
    -- a field of another name is skipped, but it must be a document
    else if d.wellFormed then next closed rest
    else .error .unreadable

/-- Takes a value when neither the tag nor the content stands a second time. -/
def finish (closed : Bool) (rest : List (Option String × Draft)) (a : α) : Decoded α := do
  match ← t.next closed rest with
  | some _ => throw .unfit
  | none => return a

/-- Reads the content that must follow a kind, unless the kind needs none. -/
def afterTag (place : Place) (closed : Bool) (rest : List (Option String × Draft)) (k : κ) :
    Decoded α := do
  match ← t.next closed rest with
  | none =>
    match t.bare k with
    | some a => return a
    | none => throw .unfit
  | some (name, d, rest) =>
    if name = t.tag then throw .unfit
    t.finish closed rest (← t.value place k d)

/-- Reads the kind that must follow a content, and with it the content, which was put aside. -/
def afterContent (place : Place) (closed : Bool) (rest : List (Option String × Draft))
    (content : Draft) : Decoded α := do
  if !content.isSound then throw .unreadable
  match ← t.next closed rest with
  | none => throw .unfit
  | some (name, d, rest) =>
    if name ≠ t.tag then throw .unfit
    match t.value .aside (← t.kindInField place d) content with
    | .ok a => t.finish closed rest a
    | .error _ => throw .unfit

/-- Reads the fields of a tagged value. -/
def ofFields (place : Place) (closed : Bool) (fields : List (Option String × Draft)) :
    Decoded α := do
  match ← t.next closed fields with
  | none => throw .unfit
  | some (name, d, rest) =>
    if name = t.tag then t.afterTag place closed rest (← t.kindInField place d)
    else t.afterContent place closed rest d

/-- Reads a tagged value that is written as a list. -/
def ofItems (place : Place) (closed : Bool) : List Draft → Decoded α
  | [] => if closed then .error .unfit else .error .unreadable
  | [d] => do
    let _ ← t.kindInFront place d
    if closed then throw .unfit else throw .unreadable
  | d :: content :: rest => do
    let a ← t.value place (← t.kindInFront place d) content
    Draft.atEnd (rest.isEmpty && closed) a

/-- Reads a tagged value. -/
def decoder (place : Place) : Decoder α
  | .list depth items closed => Draft.within depth (t.ofItems place closed items)
  | .object depth fields closed => Draft.within depth (t.ofFields place closed fields)
  | d => .error d.misfit

end Tagging

end Credence.Json
