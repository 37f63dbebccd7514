import Credence.Json.Tagged
import Credence.Value.Basic

/-!
# Values in snapshots

A value is saved with its kind as the tag and what it holds as the content; null is the kind without
content.  A number that is not finite is saved as null and is not read back.  Lists that are nested
too deep are not read back either, and as each of them takes two levels of the document, the nesting
limit also bounds the recursion.
-/

namespace Credence

open Json

def Table.toJson {α : Type} (f : α → Json) (t : Table String α) : Json :=
  .object (t.entries.map fun e => (e.1, f e.2))

def NameSet.toJson (s : NameSet) : Json := .list (KeySet.toList s |>.map .text)

def NameSet.decoder : Decoder NameSet := fun d => KeySet.ofList <$> Draft.asList Draft.asText d

namespace InstanceKey

def toJson (k : InstanceKey) : Json :=
  .object [("concept", .text k.concept), ("name", .text k.name)]

def decoder : Decoder InstanceKey :=
  Draft.asRecord
    [.needed "concept" Draft.asText fun k s => { k with concept := s },
      .needed "name" Draft.asText fun k s => { k with name := s }]
    ⟨"", ""⟩

end InstanceKey

namespace Value

inductive Kind where
  | null
  | bool
  | number
  | text
  | date
  | concept
  | inst
  | list
deriving DecidableEq, Repr

namespace Kind

/-- Every kind, in the order of the numbers from 0 on. -/
def all : List Kind := [null, bool, number, text, date, concept, inst, list]

def name : Kind → String
  | null => "null"
  | bool => "bool"
  | number => "number"
  | text => "text"
  | date => "date"
  | concept => "concept"
  | inst => "instance"
  | list => "list"

def ofName? (s : String) : Option Kind := all.find? fun k => k.name = s

def ofNumber? (n : Nat) : Option Kind := all[n]?

@[simp] theorem ofName?_name (k : Kind) : ofName? k.name = some k := by cases k <;> decide

end Kind

/-- A kind with a content. -/
def tagged (k : Kind) (content : Json) : Json :=
  .object [("type", .text k.name), ("value", content)]

mutual

def toJson : Value → Json
  | null => .object [("type", .text Kind.null.name)]
  | bool b => tagged .bool (.bool b)
  | number x => tagged .number (.number x)
  | text s => tagged .text (.text s)
  | date d => tagged .date (.text d.toText)
  | concept name => tagged .concept (.text name)
  | inst key => tagged .inst key.toJson
  | list items => tagged .list (.list (listToJson items))

def listToJson : List Value → List Json
  | [] => []
  | v :: rest => toJson v :: listToJson rest

end

/-- Reads the content of a kind, given how the items of lists are read. -/
def content (item : Place → Decoder Value) (place : Place) : Kind → Decoder Value
  | .null => fun d => (fun _ => null) <$> d.asNull
  | .bool => fun d => bool <$> d.asBool
  | .number => fun d => number <$> d.asNumber
  | .text => fun d => text <$> d.asText
  | .date => fun d => date <$> Draft.asMeant (fun s => Calendar.readSaved? s.toList) d
  | .concept => fun d => concept <$> d.asText
  | .inst => fun d => inst <$> InstanceKey.decoder d
  | .list => fun d => list <$> d.asList (item place)

/-- How values are tagged. -/
def tagging (item : Place → Decoder Value) : Tagging Kind Value where
  tag := "type"
  content := "value"
  ofName? := Kind.ofName?
  ofNumber? := Kind.ofNumber?
  value := content item
  bare k := if k = .null then some null else none

/-- Reads a value with lists nested up to a depth. -/
def decoderAt : Nat → Place → Decoder Value
  | 0, _ => fun _ => .error .unreadable
  | n + 1, place => (tagging (decoderAt n)).decoder place

def decoder : Decoder Value := decoderAt nestingLimit .ahead

end Value

def Properties.toJson (ps : Properties) : Json := Table.toJson Value.toJson ps

def Properties.decoder : Decoder Properties := Draft.asTable Value.decoder

end Credence
