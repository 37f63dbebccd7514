import Credence.Collection.Table
import Credence.Json.Reader

/-!
# Reading typed values

A decoder takes a typed value out of a draft.  It goes through the draft from front to back and
stops at the first fault, so of two faults the one that stands first counts.  A fault is of one of
two kinds: the text is no document, or the document has another form than the value asked for.

* A *record* is an object.  Fields that it does not know are passed over, whatever they hold, and a
  field may be missing if it is not required; a field that stands twice is a fault.  A record may
  also be written as a list of its fields in order.
* A *choice* is an object with one field, whose name says how the value is read.
* A *name* stands for one of several things.  It may also be written as the choice of that name,
  whose value is null.
-/

namespace Credence.Json

/-- Why a text gives no value. -/
inductive Fault where
  /-- The text is no document. -/
  | unreadable
  /-- The document has another form. -/
  | unfit
deriving DecidableEq, Repr

/-- What a decoder comes to. -/
abbrev Decoded (α : Type) := Except Fault α

/-- A way of taking a value out of a draft. -/
abbrev Decoder (α : Type) := Draft → Decoded α

/-- The depth at which lists and objects are refused. -/
def nestingLimit : Nat := 128

namespace Draft

/-- The fault of a draft that is of another kind than the one asked for. -/
def misfit : Draft → Fault
  | broken | number none | text none => .unreadable
  | _ => .unfit

def asNull : Decoder Unit
  | null => .ok ()
  | d => .error d.misfit

/-- Reads null, or an object without fields. -/
def asNothing : Decoder Unit
  | object _ [] true => .ok ()
  | d => asNull d

def asBool : Decoder Bool
  | bool b => .ok b
  | d => .error d.misfit

/-- Reads a number; an integer is the number nearest to it. -/
def asNumber : Decoder Float
  | integer n => .ok (Decimal.ofInt n)
  | number (some x) => .ok x
  | d => .error d.misfit

def asText : Decoder String
  | text (some s) => .ok s
  | d => .error d.misfit

/-- Reads a text that must have a meaning. -/
def asMeant {α : Type} (meaning : String → Option α) : Decoder α := fun d => do
  match meaning (← d.asText) with
  | some a => return a
  | none => throw .unfit

/-- Reads null as nothing, and anything else as it is. -/
def asOptional {α : Type} (decode : Decoder α) : Decoder (Option α)
  | null => .ok none
  | d => some <$> decode d

/-- Reads the inside of a list or an object that is not nested too deep. -/
def within {α : Type} (depth : Nat) (inside : Decoded α) : Decoded α :=
  if nestingLimit ≤ depth then .error .unreadable else inside

/-- Takes a result when the end of its list or object was read. -/
def atEnd {α : Type} (closed : Bool) (a : α) : Decoded α :=
  if closed then .ok a else .error .unreadable

def asList {α : Type} (item : Decoder α) : Decoder (List α)
  | list depth items closed => within depth do atEnd closed (← items.mapM item)
  | d => .error d.misfit

/-- Reads the fields of an object one after the other; of two with one name the last one counts. -/
def entries {α : Type} (value : Decoder α) :
    List (Option String × Draft) → Table String α → Decoded (Table String α)
  | [], t => .ok t
  | (none, _) :: _, _ => .error .unreadable
  | (some name, d) :: rest, t => do entries value rest (t.insert name (← value d))

/-- Reads an object whose fields all have values of one type. -/
def asTable {α : Type} (value : Decoder α) : Decoder (Table String α)
  | object depth fields closed => within depth do atEnd closed (← entries value fields ∅)
  | d => .error d.misfit

/-! ## Records -/

/-- A field of a record of type `σ`. -/
structure Field (σ : Type) where
  name : String
  required : Bool
  read : Draft → σ → Decoded σ

/-- A field that must be there. -/
def Field.needed {σ α : Type} (name : String) (decode : Decoder α) (put : σ → α → σ) : Field σ :=
  ⟨name, true, fun d s => put s <$> decode d⟩

/-- A field that may be missing. -/
def Field.extra {σ α : Type} (name : String) (decode : Decoder α) (put : σ → α → σ) : Field σ :=
  ⟨name, false, fun d s => put s <$> decode d⟩

variable {σ : Type}

/-- Reads the fields of an object into a record, and lists the names of those that were read. -/
def fieldsByName (known : List (Field σ)) :
    List (Option String × Draft) → List String → σ → Decoded (List String × σ)
  | [], seen, s => .ok (seen, s)
  | (none, _) :: _, _, _ => .error .unreadable
  | (some name, d) :: rest, seen, s =>
    match known.find? fun f => f.name = name with
    | none => if d.wellFormed then fieldsByName known rest seen s else .error .unreadable
    | some f =>
      if name ∈ seen then .error .unfit
      else do fieldsByName known rest (name :: seen) (← f.read d s)

/-- Reads the items of a list into the fields of a record, in order. -/
def fieldsByPlace : List (Field σ) → List Draft → Bool → σ → Decoded σ
  | [], [], closed, s => atEnd closed s
  | [], _ :: _, _, _ => .error .unreadable
  | f :: known, [], closed, s =>
    if !closed then .error .unreadable
    else if f.required then .error .unfit
    else fieldsByPlace known [] closed s
  | f :: known, d :: items, closed, s => do fieldsByPlace known items closed (← f.read d s)

/-- Reads a record; what is missing stays as it is at the start. -/
def asRecord (known : List (Field σ)) (start : σ) : Decoder σ
  | list depth items closed => within depth (fieldsByPlace known items closed start)
  | object depth fields closed => within depth do
    let (seen, s) ← fieldsByName known fields [] start
    if !closed then throw .unreadable
    if known.any fun f => f.required && f.name ∉ seen then throw .unfit
    return s
  | d => .error d.misfit

/-! ## Choices and names -/

/-- Reads an object with one field, whose name says how its value is read. -/
def asChoice {α : Type} (decoder : String → Option (Decoder α)) : Decoder α
  | text (some _) => .error .unfit
  | object depth ((some name, d) :: rest) closed => within depth do
    match decoder name with
    | none => throw .unfit
    | some decode => atEnd (rest.isEmpty && closed) (← decode d)
  | _ => .error .unreadable

/-- Reads one of several things by its name, or by the choice of that name with nothing in it. -/
def asNamedOr {α : Type} (nothing : Decoder Unit) (meaning : String → Option α) : Decoder α
  | text (some s) => asMeant meaning (text (some s))
  | d => asChoice (fun name => (meaning name).map fun a d => do nothing d; return a) d

/-- Reads one of several things by its name, or by the choice of that name with null in it. -/
def asNamed {α : Type} (meaning : String → Option α) : Decoder α := asNamedOr asNull meaning

end Draft

/-- Reads a value out of a text, behind which nothing else may stand. -/
def decode {α : Type} (decoder : Decoder α) (s : String) : Decoded α := do
  let (d, complete) := draft s
  Draft.atEnd complete (← decoder d)

end Credence.Json
