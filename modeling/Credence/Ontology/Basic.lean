import Credence.Collection.Reachable
import Credence.Ontology.Concept
import Credence.Ontology.Relation

/-!
# Ontologies

An ontology holds concepts and relations by name.  They refer to each other by name too, so a
parent, a child or a base of a group may be named before it exists.  An edge counts as soon as both
ends exist; `ancestors` and `descendants` follow the edges that count.
-/

namespace Credence

/-- Concepts and relations by name. -/
structure Ontology where
  concepts : Table String Concept := ∅
  relations : Table String Relation := ∅
deriving Inhabited

namespace Ontology

def hasConcept (o : Ontology) (name : String) : Bool := o.concepts.contains name

def rule? (o : Ontology) (relation : String) (id : RuleId) : Option Rule :=
  (o.relations.get? relation).bind fun r => r.rule? id

/-- The existing concepts among those that a concept names. -/
def neighbours (o : Ontology) (edges : Concept → NameSet) (name : String) : List String :=
  match o.concepts.get? name with
  | some c => (edges c).toList.filter o.hasConcept
  | none => []

/-- The existing concepts above a concept. -/
def ancestors (o : Ontology) (name : String) : NameSet :=
  KeySet.reachable (o.neighbours Concept.parents) o.concepts.size name

/-- The existing concepts below a concept. -/
def descendants (o : Ontology) (name : String) : NameSet :=
  KeySet.reachable (o.neighbours Concept.children) o.concepts.size name

/-- Whether a concept is another one or lies below it. -/
def isA (o : Ontology) (concept ancestor : String) : Bool :=
  concept = ancestor || (o.ancestors concept).has ancestor

/-- The names of the relations that may hold between two concepts, in order. -/
def relationsBetween (o : Ontology) (domain target : String) : List String :=
  ((o.relations.values.filter fun r => r.between domain target).map (·.name)).mergeSort

def ruleCount (o : Ontology) : Nat := (o.relations.values.flatMap Relation.rules).length

end Ontology

end Credence
