import Credence.KnowledgeBase.Basic
import Credence.Snapshot.Ontology

/-!
# Snapshots

A snapshot is the document of a world: its ontology and its registry.  `KnowledgeBase.save` writes
one, and `KnowledgeBase.load` makes a knowledge base of one, in which everything that was not saved
is computed anew and no deduction is remembered.
-/

namespace Credence

open Json

namespace Instance

def toJson (i : Instance) : Json :=
  .object [("key", i.key.toJson), ("properties", i.properties.toJson)]

def decoder : Decoder Instance :=
  Draft.asRecord
    [.needed "key" InstanceKey.decoder fun i k => { i with key := k },
      .needed "properties" Properties.decoder fun i ps => { i with properties := ps }]
    ⟨⟨"", ""⟩, ∅⟩

end Instance

namespace Registry

def toJson (r : Registry) : Json :=
  .object [("instances", r.byConcept.toJson fun shelf => shelf.toJson Instance.toJson)]

def decoder : Decoder Registry :=
  Draft.asRecord
    [.needed "instances" (Draft.asTable (Draft.asTable Instance.decoder)) fun _ t => ⟨t⟩]
    {}

end Registry

def World.toJson (w : World) : Json :=
  .object [("ontology", w.ontology.toJson), ("registry", w.registry.toJson)]

structure SavedWorld where
  ontology : SavedOntology := {}
  registry : Registry := {}
deriving Inhabited

def SavedWorld.decoder : Decoder SavedWorld :=
  Draft.asRecord
    [.needed "ontology" SavedOntology.decoder fun w o => { w with ontology := o },
      .needed "registry" Registry.decoder fun w r => { w with registry := r }]
    {}

namespace KnowledgeBase

/-- Why a snapshot was not loaded. -/
inductive LoadError where
  /-- The text is no snapshot. -/
  | noSnapshot
  /-- An instance of a static concept could not be made. -/
  | refused (e : Error)
deriving DecidableEq, Repr

/-- The text of a snapshot. -/
def save (w : World) : String := w.toJson.page

/-- The knowledge base of a snapshot.  Rules without identifiers are given new ones. -/
def load (document : String) (supply : Supply) : Except LoadError KnowledgeBase :=
  match decode SavedWorld.decoder document with
  | .error _ => .error .noSnapshot
  | .ok saved =>
    let (ontology, supply) := saved.ontology.identified.run supply
    match ({ ontology, registry := saved.registry } : World).rebuild with
    | (.ok (), w) => .ok { toWorld := w, supply }
    | (.error e, _) => .error (.refused e)

/-- The knowledge base of a snapshot, or an empty one if there is no snapshot. -/
def loadOrEmpty (document? : Option String) (supply : Supply) : Except LoadError KnowledgeBase :=
  match document? with
  | some document => load document supply
  | none => .ok { supply }

end KnowledgeBase

end Credence
