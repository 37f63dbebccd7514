import Credence.Ontology.Change
import Credence.World.Basic

/-!
# The instances of static concepts

A static concept has one instance, which is made as soon as the concept exists.  After a change of
the ontology the registry is brought in line: instances of concepts that are gone are dropped, and
missing instances of static concepts are made, up to the first one that its factory refuses.
-/

namespace Credence.World

/-- Drops the instances of concepts that do not exist. -/
def dropOrphans (w : World) : World :=
  { w with registry := ⟨w.registry.byConcept.filter fun c _ => w.ontology.hasConcept c⟩ }

/-- The static concepts without their instance, in order. -/
def pendingStatics (w : World) : List String :=
  (w.ontology.concepts.values.filter fun c =>
    c.category = .static && !w.registry.contains (.singleton c.name)).map (·.name)

/-- Makes the instance of a static concept, in place of the one it has. -/
def materialize (w : World) (name : String) : Except Error World := do
  match w.concept? name with
  | none => throw (.missing (.concept name))
  | some c =>
    let i ← c.factory.create name name c.seed
    return { w with registry := w.registry.replace i }

/-- Makes the instances of static concepts in turn, up to the first refusal. -/
def materializeAll : List String → World → Except Error Unit × World
  | [], w => (.ok (), w)
  | name :: rest, w =>
    match w.materialize name with
    | .ok w => materializeAll rest w
    | .error e => (.error e, w)

/-- Brings the registry in line with the ontology. -/
def syncStatics (w : World) : Except Error Unit × World :=
  let w := w.dropOrphans
  materializeAll w.pendingStatics w

/-- Computes anew whatever is not declared, and brings the registry in line. -/
def rebuild (w : World) : Except Error Unit × World :=
  syncStatics { w with ontology := w.ontology.rebuild }

end Credence.World
