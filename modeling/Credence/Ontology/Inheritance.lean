import Credence.Ontology.Basic

/-!
# Inheritance

When a concept changes, it and everything below it inherit anew, each from its existing parents.
The walk goes down from the concept along the children; it turns back where it meets its own path,
so its depth is at most the number of concepts.
-/

namespace Credence.Ontology

/-- The existing parents of a concept. -/
def parentsOf (o : Ontology) (c : Concept) : List Concept :=
  c.parents.toList.filterMap o.concepts.get?

/-- Lets a concept inherit anew. -/
def inherit (o : Ontology) (name : String) : Ontology :=
  { o with concepts := o.concepts.modify name fun c =>
      { c with inherited := .ofParents (o.parentsOf c) } }

/-- Lets a concept and everything below it inherit anew.  The first argument bounds the depth,
`path` has the concepts that the walk came by. -/
def cascadeFrom : Nat → List String → Ontology → String → Ontology
  | 0, _, o, _ => o
  | depth + 1, path, o, name =>
    -- never so while no concept is its own ancestor
    if name ∈ path then o
    else
      match o.concepts.get? name with
      | none => o
      | some c => c.children.toList.foldl (cascadeFrom depth (name :: path)) (o.inherit name)

/-- Lets a concept and everything below it inherit anew. -/
def cascade (o : Ontology) (name : String) : Ontology :=
  cascadeFrom (o.concepts.size + 1) [] o name

end Credence.Ontology
