import Credence.Condition.Malformed
import Credence.Condition.Slot
import Credence.Ontology.RuleId
import Credence.Ontology.Subject

/-!
# Errors

Whatever can go wrong in a knowledge base, as causes; the wording of all of them is in this module.
-/

namespace Credence

/-- Something that was named and is not there. -/
inductive Reference where
  | concept (name : String)
  | relation (name : String)
  | inst (name : String)
  | rule (owner : String) (id : RuleId)
  | condition (owner : String) (id : RuleId) (index : Nat)
  /-- A bundle of concepts. -/
  | bundle (name : String)
  /-- A text that names nothing known. -/
  | anything (text : String)
deriving DecidableEq, Repr

def Reference.kind : Reference → String
  | concept _ => "concept"
  | relation _ => "relation"
  | inst _ => "instance"
  | rule _ _ => "rule"
  | condition _ _ _ => "condition"
  | bundle _ => "bundle"
  | anything _ => "reference"

def Reference.name : Reference → String
  | concept name | relation name | inst name | bundle name | anything name => name
  | rule owner id => owner ++ "/" ++ id.toText
  | condition owner id index => owner ++ "/" ++ id.toText ++ "#" ++ toString index

/-- A rule of the model that an operation would break. -/
inductive Violation where
  | conceptExists (concept : String)
  | relationExists (relation : String)
  | instanceExists (key : InstanceKey)
  /-- A property of a concept is null. -/
  | nullProperty (key concept : String)
  /-- A property of a new instance is null. -/
  | nullInstanceProperty (key concept : String)
  /-- A new concept would be its own ancestor. -/
  | cycle (concept : String)
  /-- A new edge would make a concept its own ancestor. -/
  | edgeCycle (child parent : String)
  /-- A concept is a base of relations or rules. -/
  | declaredMember (concept : String) (relations : List String)
  /-- A member of a rule belongs to no group of its relation. -/
  | outsideRelation (side : Side) (member : Subject) (relation : String)
  | unknownConcept (concept : String)
  | abstractConcept (concept : String)
  | staticConcept (concept : String)
  /-- An entity of a text has a type without instances. -/
  | abstractEntity (form concept : String)
  | salience (x : Float) (logic : String)
  | noDate (name : String)
  | noAddress (name : String)
deriving DecidableEq, Repr

def Violation.message : Violation → String
  | conceptExists concept => "concept '" ++ concept ++ "' already exists"
  | relationExists relation => "relation '" ++ relation ++ "' already exists"
  | instanceExists key => "instance '" ++ key.toText ++ "' already exists"
  | nullProperty key concept => "property '" ++ key ++ "' of '" ++ concept ++ "' is null"
  | nullInstanceProperty key concept =>
    "property '" ++ key ++ "' of a '" ++ concept ++ "' instance is null"
  | cycle concept => "concept '" ++ concept ++ "' would close an inheritance cycle"
  | edgeCycle child parent =>
    "'" ++ child ++ "' → '" ++ parent ++ "' would close an inheritance cycle"
  | declaredMember concept relations =>
    "concept '" ++ concept ++ "' is a declared member of relation(s) " ++ ", ".intercalate relations
  | outsideRelation side member relation =>
    "rule " ++ side.name ++ " member '" ++ member.toText ++ "' is outside relation '" ++ relation
      ++ "'"
  | unknownConcept concept => "unknown concept '" ++ concept ++ "' for instance"
  | abstractConcept concept => "abstract concept '" ++ concept ++ "' cannot be instantiated"
  | staticConcept concept => "static concept '" ++ concept ++ "' already owns its single instance"
  | abstractEntity form concept => "entity '" ++ form ++ "' has abstract type '" ++ concept ++ "'"
  | salience x logic =>
    "salience " ++ Decimal.plain x ++ " of '" ++ logic ++ "' is outside [0, 1]"
  | noDate name => "'" ++ name ++ "' is not a date"
  | noAddress name => "'" ++ name ++ "' is not an e-mail address"

/-- An operation that something does not have. -/
inductive Unsupported where
  /-- A member of a rule names a concept that is not there. -/
  | unresolvedMember (side : Side) (member : Subject)
  | neverResolved (member : Subject)
  | notCallable (concept : String)
  | instanceMethod (key : InstanceKey) (method : String) (count : Nat)
  | dateMethod (method : String) (count : Nat)
  /-- A method of a concept that has no single instance; the subject is given in writing. -/
  | noInstance (subject method : String)
  /-- A method of a value that has none; the value is given in writing. -/
  | noMethod (subject method : String)
deriving DecidableEq, Repr

def Unsupported.message : Unsupported → String
  | unresolvedMember side member =>
    "rule " ++ side.name ++ " member '" ++ member.toText ++ "' names the unresolved concept '"
      ++ member.conceptName ++ "'"
  | neverResolved member => "rule member '" ++ member.toText ++ "' was never resolved"
  | notCallable concept => "concept '" ++ concept ++ "' is not callable"
  | instanceMethod key method count =>
    "instance '" ++ key.toText ++ "' has no method " ++ method ++ "/" ++ toString count
  | dateMethod method count => "date has no method " ++ method ++ "/" ++ toString count
  | noInstance subject method =>
    "'" ++ subject ++ "' has no instance to call " ++ method ++ "() on"
  | noMethod subject method => subject ++ " has no method " ++ method ++ "()"

/-- Why an operation was refused. -/
inductive Error where
  /-- A text is no condition. -/
  | malformed (logic : String) (reason : Expr.Malformed)
  | missing (reference : Reference)
  | violation (v : Violation)
  /-- A condition asks for a slot that the scenario does not fill. -/
  | unbound (slot : Slot)
  | unsupported (u : Unsupported)
deriving DecidableEq, Repr

def Error.message : Error → String
  | malformed logic reason => "Malformed logic '" ++ logic ++ "': " ++ reason.message
  | missing reference => "Missing " ++ reference.kind ++ " reference: " ++ reference.name
  | violation v => "Invariant violation: " ++ v.message
  | unbound slot => "Scenario inconsistency: key '" ++ slot.toText ++ "' is not bound"
  | unsupported u => "Unsupported operation: " ++ u.message

end Credence
