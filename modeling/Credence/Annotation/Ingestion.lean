import Credence.Annotation.Basic
import Credence.KnowledgeBase.Basic

/-!
# Learning from annotated texts

An annotation that tells becomes a rule without conditions between two instances.  An entity of a
static concept is the instance of that concept; an entity of a dynamic concept is the instance of
its name, which is created if there is none.  Both entities are looked at before anything is
created.
-/

namespace Credence.KnowledgeBase

/-- What came of annotated texts. -/
structure Report where
  documents : Nat := 0
  rulesAdded : Nat := 0
  skipped : Nat := 0
  instancesCreated : Nat := 0
deriving DecidableEq, Repr

def Report.plus (a b : Report) : Report where
  documents := a.documents + b.documents
  rulesAdded := a.rulesAdded + b.rulesAdded
  skipped := a.skipped + b.skipped
  instancesCreated := a.instancesCreated + b.instancesCreated

/-- The category of the concept of an entity, which must not be abstract. -/
def entityCategory (w : World) (e : Entity) : Except Error Category :=
  match w.concept? e.classType with
  | none => .error (.missing (.concept e.classType))
  | some c =>
    if c.category = .abstract then .error (.violation (.abstractEntity e.surfaceForm e.classType))
    else .ok c.category

/-- The instance that an entity is, and the number of instances that were created for it. -/
def entityInstance (e : Entity) (category : Category) : Step (InstanceKey × Nat) := do
  if category = .static then return (.singleton e.classType, 0)
  let key : InstanceKey := ⟨e.classType, e.surfaceForm⟩
  if (← get).registry.contains key then return (key, 0)
  let _ ← createInstance e.classType (some e.surfaceForm) ∅
  return (key, 1)

/-- Learns from one annotation; one that does not tell, or that the relation does not allow, is
skipped. -/
def ingestAnnotation (a : Annotation) : Step Report := do
  if a.classification = .insufficient then return { skipped := 1 }
  match (← get).ontology.relations.get? a.relation with
  | none => throw (.missing (.relation a.relation))
  | some r =>
    if !r.between a.domain.classType a.target.classType then return { skipped := 1 }
    -- both categories are looked at before an instance is made for either
    let domainCategory ← accept (entityCategory (← get).toWorld a.domain)
    let targetCategory ← accept (entityCategory (← get).toWorld a.target)
    let (domain, n) ← entityInstance a.domain domainCategory
    let (target, k) ← entityInstance a.target targetCategory
    let rule := Rule.simple (← mint) a.confidence [.inst domain] [.inst target]
      (a.classification ≠ .negative)
    update (Ontology.addRule a.relation rule)
    return { rulesAdded := 1, instancesCreated := n + k }

/-- Learns from annotations in turn, up to the first that fails. -/
def ingestAnnotations : List Annotation → Step Report
  | [] => return {}
  | a :: rest => do
    let first ← ingestAnnotation a
    return first.plus (← ingestAnnotations rest)

/-- Learns from texts in turn, up to the first that fails. -/
def ingestAll : List AnnotatedText → Step Report
  | [] => return {}
  | t :: rest => do
    let first ← ingestAnnotations t.annotations
    return (Report.plus { documents := 1 } first).plus (← ingestAll rest)

/-- Learns from annotated texts, and forgets all deductions.  What came before a failure stays
learnt. -/
def ingest (texts : List AnnotatedText) : Step Report := do
  let result ← observing (ingestAll texts)
  modify reset
  accept result
where
  /-- A step with its failure as a result. -/
  observing {α : Type} (step : Step α) : Step (Except Error α) :=
    tryCatch (Except.ok <$> step) fun e => return .error e

end Credence.KnowledgeBase
