import Credence.Deduction.Inference
import Credence.Ontology.Bundle
import Credence.World.Statics

/-!
# Knowledge bases

A knowledge base is a world that changes and answers queries.  Beside the world it keeps what the
last deductions remember, and the supply of new identifiers.

A step of a knowledge base may fail.  What it has changed by then stays changed, unless the step
says otherwise.
-/

namespace Credence

/-- A world that changes and answers queries. -/
structure KnowledgeBase extends World where
  /-- What the last deductions remember. -/
  memo : Memo := ∅
  /-- The source of new identifiers. -/
  supply : Supply := ⟨0, 0⟩
deriving Inhabited

namespace KnowledgeBase

/-- A step of a knowledge base. -/
abbrev Step (α : Type) := ExceptT Error (StateM KnowledgeBase) α

/-- Forgets all deductions. -/
def reset (kb : KnowledgeBase) : KnowledgeBase := { kb with memo := ∅ }

/-- A result that was computed beside the knowledge base. -/
def accept {α : Type} (e : Except Error α) : Step α := MonadExcept.ofExcept e

def mint : Step RuleId := do
  let id := (← get).supply.next
  modify fun kb => { kb with supply := kb.supply.advance }
  return id

/-! ## Changing the ontology -/

/-- Changes the ontology, brings the registry in line and forgets all deductions, whether the change
is refused or not.  A refusal comes before an error of the registry. -/
def update {α : Type} (change : Ontology.Change α) : Step α := do
  let kb ← get
  let (outcome, ontology) := change.run.run kb.ontology
  let (synced, w) := { kb.toWorld with ontology }.syncStatics
  set ({ kb with toWorld := w }.reset)
  -- everything is in place already; what is left is which error comes out
  let a ← accept outcome
  accept synced
  return a

/-- Computes anew whatever is not declared, and brings the registry in line. -/
def rebuild : Step Unit := do
  let kb ← get
  let (synced, w) := kb.toWorld.rebuild
  set ({ kb with toWorld := w }.reset)
  accept synced

/-- The knowledge base of an ontology, with the instances of its static concepts only. -/
def ofOntology (o : Ontology) (supply : Supply) : Except Error KnowledgeBase :=
  let (synced, w) := ({ ontology := o } : World).syncStatics
  synced.map fun _ => { toWorld := w, supply }

/-- Chooses the factory of a concept.  The instance of a static concept is made anew. -/
def setFactory (concept : String) (factory : Factory) : Step Unit := do
  let kb ← get
  let (outcome, ontology) := (Ontology.setFactory concept factory).run.run kb.ontology
  let kb := { kb with ontology }
  set kb
  accept outcome
  if (kb.concept? concept).any fun c => c.category = .static then
    -- if the new factory refuses the name, the concept is left without its instance
    let bare := { kb.toWorld with registry := kb.registry.erase (.singleton concept) }
    set { kb with toWorld := bare }
    let w ← accept (bare.materialize concept)
    set { kb with toWorld := w }
  modify reset

/-! ## Instances -/

/-- The concept of a new instance: it must be dynamic, and no property may be null. -/
def checkInstantiable (w : World) (concept : String) (properties : Properties) :
    Except Error Concept :=
  match w.concept? concept with
  | none => .error (.violation (.unknownConcept concept))
  | some c =>
    match c.category with
    | .abstract => .error (.violation (.abstractConcept concept))
    | .static => .error (.violation (.staticConcept concept))
    | .dynamic =>
      match properties.entries.find? fun e => e.2.isNull with
      | some (key, _) => .error (.violation (.nullInstanceProperty key concept))
      | none => .ok c

def register (i : Instance) : Step Unit := do
  let kb ← get
  let registry ← accept (kb.registry.insert i)
  set ({ kb with registry }.reset)

/-- Adds an instance as it is.  What it lacks of the properties of its concept it is given. -/
def addInstance (i : Instance) : Step Unit := do
  let c ← accept (checkInstantiable (← get).toWorld i.key.concept i.properties)
  register { i with properties := c.seed.override i.properties }

/-- Creates an instance by the factory of its concept.  Without a name it is named by a new
identifier. -/
def createInstance (concept : String) (name? : Option String) (properties : Properties) :
    Step InstanceKey := do
  let c ← accept (checkInstantiable (← get).toWorld concept properties)
  let name ← match name? with
    | some name => pure name
    | none => do
      let id ← mint
      pure id.toText
  let i ← accept (c.factory.create concept name (c.seed.override properties))
  register i
  return i.key

/-- Changes the properties of an instance and gives what was under a key before.  All deductions are
forgotten, also if there is no such instance. -/
def modifyProperty (key : InstanceKey) (property : String) (f : Properties → Properties) :
    Step (Option Value) := do
  modify reset
  match (← get).registry.get? key with
  | none => throw (.missing (.inst key.toText))
  | some i =>
    modify fun kb =>
      let change (i : Instance) : Instance := { i with properties := f i.properties }
      { kb with registry := kb.registry.modify key change }
    return i.property? property

def setInstanceProperty (key : InstanceKey) (property : String) (value : Value) :
    Step (Option Value) :=
  modifyProperty key property fun ps => ps.insert property value

def unsetInstanceProperty (key : InstanceKey) (property : String) : Step (Option Value) :=
  modifyProperty key property fun ps => ps.erase property

/-! ## Queries -/

/-- Carries out a deduction with what is remembered, and remembers more. -/
def deduce {α : Type} (d : World → Deduction α) : Step α := do
  let kb ← get
  let (outcome, memo) := (d kb.toWorld).run.run kb.memo
  set { kb with memo }
  accept outcome

/-- The verdict on a relation between two subjects, from a fresh memory. -/
def infer (domain : Subject) (relation : String) (target : Subject) (conditions : Bool) :
    Step Finding := do
  modify reset
  deduce fun w => w.infer domain relation target conditions

/-- The value of a condition in a scenario, with what is remembered. -/
def evaluate (e : Expr) (scenario : Scenario) : Step Value :=
  deduce fun w => e.evaluate w.reasoner scenario

structure Stats where
  concepts : Nat
  relations : Nat
  rules : Nat
  instances : Nat
deriving DecidableEq, Repr

def stats (w : World) : Stats where
  concepts := w.ontology.concepts.size
  relations := w.ontology.relations.size
  rules := w.ontology.ruleCount
  instances := w.registry.size

end KnowledgeBase

end Credence
