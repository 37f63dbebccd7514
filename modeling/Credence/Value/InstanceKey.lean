import Credence.Collection.Table

/-!
# Keys of instances

An instance is known by its concept and its name.  The written form of a key is `Concept:name`, or
just the name when the two are the same, which is how the one instance of a static concept shows.
-/

namespace Credence

/-- What identifies an instance: its concept and its name. -/
structure InstanceKey where
  concept : String
  name : String
deriving DecidableEq, Repr, Inhabited

namespace InstanceKey

/-- Keys compare by concept, then by name. -/
instance : Ord InstanceKey :=
  ⟨fun a b => (compare a.concept b.concept).then (compare a.name b.name)⟩

instance : Std.TransOrd InstanceKey :=
  inferInstanceAs (Std.TransCmp (compareLex (compareOn concept) (compareOn name)))

instance : Std.LawfulEqOrd InstanceKey where
  eq_of_compare {a b} h := by
    obtain ⟨ha, hb⟩ := Ordering.then_eq_eq.1 h
    cases a; cases b
    simp only [Std.LawfulEqCmp.compare_eq_iff_eq] at ha hb
    simp [ha, hb]

/-- The key of the one instance of a static concept. -/
def singleton (concept : String) : InstanceKey := ⟨concept, concept⟩

def toText (k : InstanceKey) : String :=
  if k.concept = k.name then k.name else k.concept ++ ":" ++ k.name

/-- Reads `Concept:name`, split at the first colon; neither part may be empty. -/
def parse? (reference : String) : Option InstanceKey :=
  let text := reference.toList
  let concept := text.takeWhile (· ≠ ':')
  match text.dropWhile (· ≠ ':') with
  | _ :: name =>
    if concept = [] ∨ name = [] then none
    else some ⟨String.ofList concept, String.ofList name⟩
  | [] => none

end InstanceKey

end Credence
