import Credence.Proofs.Ontology.Graph
import Credence.Proofs.World.Order
import Credence.Proofs.World.Registry

/-!
# What a parameter ranges over

A parameter ranges over the instances of its concept and, if it has a tag, of everything below that.
`places` lists them with the keys under which they are registered.  A concept is searched for once,
however many chains of children lead to it, and a key belongs to one concept, so no key is listed
twice (`nodup_keys_places`); and a key is listed exactly if it is registered and its concept is the
one asked for or lies below it (`mem_places`).
-/

section Candidates

open Relation (TransGen)

namespace Credence.World

variable {w : World} {concept name : String} {below : Bool} {key : InstanceKey} {i : Instance}

/-- A concept, and with `below` everything that lies below it. -/
def kinds (w : World) (concept : String) (below : Bool) : List String :=
  concept :: if below then (w.ontology.descendants concept).toList else []

/-- The registered instances of a concept, and with `below` of everything below it. -/
def places (w : World) (concept : String) (below : Bool) : List (InstanceKey × Instance) :=
  (w.kinds concept below).flatMap fun name =>
    (w.registry.shelf name).entries.map fun e => (⟨name, e.1⟩, e.2)

theorem instances_eq_places (h : w.ontology.hasConcept concept = true) :
    w.instances concept below = .ok ((w.places concept below).map (·.2)) := by
  rw [instances, if_pos h, places, List.map_flatMap]
  simp only [List.map_map, Function.comp_def]
  rfl

/-- What lies below a concept is at the end of a chain of children, and is not the concept. -/
theorem has_descendants_iff :
    (w.ontology.descendants concept).has name = true ↔
      name ≠ concept ∧ TransGen w.ontology.Child concept name := by
  constructor
  · intro h
    refine ⟨?_, KeySet.transGen_of_has_reachable h⟩
    rintro rfl
    simp [Ontology.descendants, KeySet.reachable] at h
  · rintro ⟨hne, hchain⟩
    exact Ontology.has_descendants hchain hne

theorem mem_kinds :
    name ∈ w.kinds concept below ↔
      name = concept ∨ below = true ∧ TransGen w.ontology.Child concept name := by
  have hfurther : name ∈ (if below then (w.ontology.descendants concept).toList else []) ↔
      below = true ∧ name ≠ concept ∧ TransGen w.ontology.Child concept name := by
    cases below with
    | true => simp [KeySet.mem_toList_iff, has_descendants_iff]
    | false => simp
  rw [kinds, List.mem_cons, hfurther]
  by_cases hname : name = concept <;> simp [hname]

theorem nodup_kinds : (w.kinds concept below).Nodup := by
  refine List.nodup_cons.mpr ⟨?_, ?_⟩
  · split
    · rw [KeySet.mem_toList_iff, has_descendants_iff]
      exact fun h => h.1 rfl
    · exact List.not_mem_nil
  · split
    · exact Table.keys_nodup _
    · exact .nil

/-- Exactly the registered keys of a concept or of what lies below it are listed. -/
theorem mem_places :
    (key, i) ∈ w.places concept below ↔ w.registry.get? key = some i ∧
      (key.concept = concept ∨ below = true ∧ TransGen w.ontology.Child concept key.concept) := by
  rw [← mem_kinds, Registry.get?_eq_shelf, places, List.mem_flatMap]
  constructor
  · rintro ⟨name, hname, hentry⟩
    obtain ⟨e, he, heq⟩ := List.mem_map.mp hentry
    obtain ⟨rfl, rfl⟩ := Prod.mk.inj heq
    exact ⟨Table.get?_eq_some_of_mem he, hname⟩
  · rintro ⟨hget, hname⟩
    exact ⟨key.concept, hname,
      List.mem_map.mpr ⟨(key.name, i), Table.mem_entries_iff.mpr hget, rfl⟩⟩

/-- No key is listed twice. -/
theorem nodup_keys_places : ((w.places concept below).map (·.1)).Nodup := by
  rw [places, List.map_flatMap]
  simp only [List.map_map, Function.comp_def]
  refine List.nodup_flatMap.mpr ⟨fun name _ => ?_, nodup_kinds.imp fun hne key hleft hright => ?_⟩
  · refine List.Nodup.of_map InstanceKey.name ?_
    rw [List.map_map]
    exact Table.keys_nodup _
  · -- a key belongs to one concept
    obtain ⟨e, -, rfl⟩ := List.mem_map.mp hleft
    obtain ⟨e', -, heq⟩ := List.mem_map.mp hright
    exact hne (congrArg InstanceKey.concept heq).symm

/-- In an orderly world instances are listed under their own keys. -/
theorem Orderly.key_of_mem_places (hw : w.Orderly) {p : InstanceKey × Instance}
    (hp : p ∈ w.places concept below) : p.2.key = p.1 :=
  (hw.stored (mem_places.mp hp).1).1

/-! ## Values -/

/-- The values of a parameter: the instances that it ranges over. -/
def range (w : World) : Slot → List Value
  | .param concept tag => (w.places concept tag.isSome).map fun p => .inst p.2.key
  | _ => []

theorem candidates_param (w : World) (concept : String) (tag : Option String) :
    w.candidates (.param concept tag) =
      if w.ontology.hasConcept concept then .ok (w.range (.param concept tag))
      else .error (.missing (.concept concept)) := by
  have hbelow : (Slot.param concept tag).reachesDown = tag.isSome := by cases tag <;> rfl
  unfold candidates
  rw [hbelow]
  dsimp only [Slot.concept?]
  by_cases h : w.ontology.hasConcept concept = true
  · rw [if_pos h, instances_eq_places h, Except.map, List.map_map]
    rfl
  · rw [if_neg h, instances, if_neg h]
    rfl

/-- In an orderly world no value is listed twice. -/
theorem Orderly.nodup_range (hw : w.Orderly) (k : Slot) : (w.range k).Nodup := by
  cases k with
  | domain | target => exact .nil
  | param concept tag =>
      have hkeys : w.range (.param concept tag) =
          ((w.places concept tag.isSome).map (·.1)).map .inst := by
        rw [List.map_map]
        refine List.map_congr_left fun p hp => ?_
        rw [hw.key_of_mem_places hp]
        rfl
      rw [hkeys]
      exact nodup_keys_places.map fun _ _ h => Value.inst.inj h

end Credence.World

end Candidates
