import Credence.Instance.Basic

/-!
# Registries

A registry holds instances by concept, and those of a concept by name.  A concept whose last
instance is removed leaves no trace.
-/

namespace Credence

/-- Instances by concept and name. -/
structure Registry where
  byConcept : Table String (Table String Instance) := ∅
deriving Inhabited

namespace Registry

/-- The instances of a concept by name. -/
def shelf (r : Registry) (concept : String) : Table String Instance :=
  (r.byConcept.get? concept).getD ∅

def get? (r : Registry) (key : InstanceKey) : Option Instance :=
  (r.byConcept.get? key.concept).bind fun t => t.get? key.name

def contains (r : Registry) (key : InstanceKey) : Bool := (r.get? key).isSome

/-- Stores an instance under its key, in place of the one there. -/
def replace (r : Registry) (i : Instance) : Registry :=
  ⟨r.byConcept.insert i.key.concept ((r.shelf i.key.concept).insert i.key.name i)⟩

/-- Stores an instance under its key, which must be free. -/
def insert (r : Registry) (i : Instance) : Except Error Registry :=
  if r.contains i.key then .error (.violation (.instanceExists i.key)) else .ok (r.replace i)

def modify (r : Registry) (key : InstanceKey) (f : Instance → Instance) : Registry :=
  ⟨r.byConcept.modify key.concept fun t => t.modify key.name f⟩

def erase (r : Registry) (key : InstanceKey) : Registry :=
  match r.byConcept.get? key.concept with
  | none => r
  | some t =>
    let rest := t.erase key.name
    ⟨if rest.isEmpty then r.byConcept.erase key.concept else r.byConcept.insert key.concept rest⟩

def eraseConcept (r : Registry) (concept : String) : Registry := ⟨r.byConcept.erase concept⟩

/-- The instances of a concept in the order of their names. -/
def ofConcept (r : Registry) (concept : String) : List Instance := (r.shelf concept).values

def concepts (r : Registry) : List String := r.byConcept.keys

/-- All instances, by concept and then by name. -/
def toList (r : Registry) : List Instance := r.byConcept.values.flatMap Table.values

def size (r : Registry) : Nat := r.toList.length

def isEmpty (r : Registry) : Bool := r.byConcept.isEmpty

end Registry

end Credence
