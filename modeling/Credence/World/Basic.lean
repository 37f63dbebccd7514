import Credence.Condition.Arithmetic
import Credence.Ontology.Basic
import Credence.World.Registry

/-!
# Worlds

A world is an ontology with the registered instances.  This module has what can be read off a world
without any inference: what a text or a value refers to, the instances of a concept, the properties
and methods of a value.

A static concept and its one instance are the same thing to a query, which always takes the
instance.
-/

namespace Credence

/-- An ontology and its instances. -/
structure World where
  ontology : Ontology := {}
  registry : Registry := {}
deriving Inhabited

namespace World

def concept? (w : World) (name : String) : Option Concept := w.ontology.concepts.get? name

/-! ## References -/

/-- A subject, or the one instance of a static concept. -/
def canonical (w : World) (s : Subject) : Subject :=
  match s with
  | .concept name =>
    if w.registry.contains (.singleton name) then .inst (.singleton name) else s
  | .inst _ => s

/-- Refuses a subject that does not exist. -/
def checkSubject (w : World) : Subject → Except Error Unit
  | .concept name =>
    if w.ontology.hasConcept name then .ok () else .error (.missing (.concept name))
  | .inst key =>
    if w.registry.contains key then .ok () else .error (.missing (.inst key.toText))

/-- What a text refers to: a concept of that name, an instance given as `Concept:name`, or the first
instance of that name. -/
def resolve (w : World) (text : String) : Except Error Subject :=
  let name := Text.trim text
  if w.ontology.hasConcept name then .ok (w.canonical (.concept name))
  else
    match InstanceKey.parse? name with
    | some key =>
      if w.registry.contains key then .ok (.inst key) else .error (.missing (.inst name))
    | none =>
      match w.registry.toList.find? fun i => i.isNamed name with
      | some i => .ok (.inst i.key)
      | none => .error (.missing (.anything name))

/-- What a value refers to, if anything. -/
def subject? (w : World) : Value → Option Subject
  | .inst key => if w.registry.contains key then some (.inst key) else none
  | .concept name =>
    -- a static concept stands for its instance
    if w.ontology.hasConcept name then some (w.canonical (.concept name)) else none
  | .text s => (w.resolve s).toOption
  | _ => none

/-! ## Instances -/

/-- The instances of a concept, and with `below` of all concepts below it. -/
def instances (w : World) (concept : String) (below : Bool) : Except Error (List Instance) :=
  if w.ontology.hasConcept concept then
    let further := if below then (w.ontology.descendants concept).toList else []
    .ok ((concept :: further).flatMap w.registry.ofConcept)
  else .error (.missing (.concept concept))

/-- The values that a parameter ranges over. -/
def candidates (w : World) (s : Slot) : Except Error (List Value) :=
  match s.concept? with
  | some concept => (w.instances concept s.reachesDown).map (·.map fun i => .inst i.key)
  | none => .error (.unbound s)

/-! ## Properties and methods -/

/-- A property of a concept as one value, null if it has no such property. -/
def conceptProperty (w : World) (concept key : String) : Value :=
  (((w.concept? concept).bind fun c => c.property? key).map Holding.toValue).getD .null

/-- A property of an instance, or else of its concept. -/
def instanceProperty (w : World) (instanceKey : InstanceKey) (key : String) : Value :=
  match w.registry.get? instanceKey with
  | none => .null
  | some i => (i.property? key).getD (w.conceptProperty instanceKey.concept key)

/-- A property of a value, null if it has no such property. -/
def property (w : World) (subject : Value) (key : String) : Value :=
  match subject with
  | .inst instanceKey => w.instanceProperty instanceKey key
  | .concept name => w.conceptProperty name key
  | .date d => d.property key
  | _ => .null

/-- A method of an instance, which its concept decides. -/
def instanceMethod (w : World) (key : InstanceKey) (name : String) (args : List Value) :
    Except Error Value :=
  match w.registry.get? key with
  | none => .error (.missing (.inst key.toText))
  | some i => (((w.concept? key.concept).map Concept.factory).getD .default).method i name args

/-- A method of a value: of null, of a date, or of the instance that the value refers to. -/
def method (w : World) (subject : Value) (name : String) (args : List Value) : Except Error Value :=
  match subject with
  | .null => .ok .null
  | .date d => d.method name args
  | .inst _ | .concept _ =>
    match w.subject? subject with
    | some (.inst key) => w.instanceMethod key name args
    | _ => .error (.unsupported (.noInstance subject.toText name))
  | _ => .error (.unsupported (.noMethod subject.toText name))

def construct (w : World) (concept : String) (args : List Value) : Except Error Value :=
  match w.concept? concept with
  | some c => c.factory.call concept args
  | none => .error (.missing (.concept concept))

end World

end Credence
