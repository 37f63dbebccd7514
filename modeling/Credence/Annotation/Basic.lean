import Credence.Deduction.Inference

/-!
# Annotated texts

A text mentions entities, and an annotation says of two of them that a relation was seen to hold, or
not to hold, or that the text does not tell.
-/

namespace Credence

/-- Something that a text mentions. -/
structure Entity where
  /-- The name of its concept. -/
  classType : String
  /-- What the text calls it. -/
  surfaceForm : String
  confidence : Float
deriving BEq, Repr, Inhabited

/-- What an annotation says. -/
inductive Classification where
  | positive
  /-- The text does not tell. -/
  | insufficient
  | negative
deriving DecidableEq, Repr, Inhabited

namespace Classification

def all : List Classification := [positive, insufficient, negative]

def name : Classification → String
  | positive => "positive"
  | insufficient => "insufficient"
  | negative => "negative"

def ofName? (s : String) : Option Classification := all.find? fun c => c.name = s

end Classification

/-- A relation between two entities as a text tells it. -/
structure Annotation where
  domain : Entity
  relation : String
  target : Entity
  classification : Classification
  confidence : Float
deriving Inhabited

structure AnnotatedText where
  text : String := ""
  annotations : List Annotation := []
deriving Inhabited

/-- Annotates every ordered pair of different entities between which a relation may hold.  The
confidence is the product of theirs. -/
def annotate (o : Ontology) (text : String) (entities : List Entity) (relation : String)
    (classification : Classification) : AnnotatedText where
  text := text
  annotations :=
    match o.relations.get? relation with
    | none => []
    | some r => entities.flatMap fun domain =>
      (entities.filter fun target =>
        domain != target && r.between domain.classType target.classType).map fun target =>
          ⟨domain, relation, target, classification, domain.confidence * target.confidence⟩

end Credence
