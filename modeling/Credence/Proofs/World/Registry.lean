import Credence.Proofs.Collection.Table
import Credence.World.Registry

/-!
# What changes do to a registry

A stored instance is found under its key, an erased one is not, and no other key notices.  Storing
an instance makes the registry grow by one unless there was an instance under the key.
-/

namespace Credence.Registry

variable {r : Registry} {i : Instance} {key : InstanceKey}

theorem key_eq {key' : InstanceKey} (hconcept : key'.concept = key.concept)
    (hname : key'.name = key.name) : key' = key := by
  cases key
  cases key'
  cases hconcept
  cases hname
  rfl

theorem get?_eq_shelf (r : Registry) (key : InstanceKey) :
    r.get? key = (r.shelf key.concept).get? key.name := by
  unfold get? shelf
  cases r.byConcept.get? key.concept <;> rfl

theorem shelf_replace (r : Registry) (i : Instance) (concept : String) :
    (r.replace i).shelf concept =
      if concept = i.key.concept then (r.shelf i.key.concept).insert i.key.name i
      else r.shelf concept := by
  unfold shelf replace
  rw [Table.get?_insert]
  split <;> rfl

@[simp] theorem get?_replace (r : Registry) (i : Instance) (key : InstanceKey) :
    (r.replace i).get? key = if key = i.key then some i else r.get? key := by
  rw [get?_eq_shelf, get?_eq_shelf, shelf_replace]
  by_cases hconcept : key.concept = i.key.concept
  · rw [if_pos hconcept, Table.get?_insert, ← hconcept]
    by_cases hname : key.name = i.key.name
    · rw [if_pos hname, if_pos (key_eq hconcept hname)]
    · rw [if_neg hname, if_neg fun h => hname (congrArg InstanceKey.name h)]
  · rw [if_neg hconcept, if_neg fun h => hconcept (congrArg InstanceKey.concept h)]

@[simp] theorem contains_replace (r : Registry) (i : Instance) (key : InstanceKey) :
    (r.replace i).contains key = (decide (key = i.key) || r.contains key) := by
  unfold contains
  rw [get?_replace]
  by_cases h : key = i.key <;> simp [h]

/-! ## Changing and erasing -/

theorem get?_modify (r : Registry) (key : InstanceKey) (f : Instance → Instance)
    (key' : InstanceKey) :
    (r.modify key f).get? key' = if key' = key then (r.get? key').map f else r.get? key' := by
  unfold get? modify
  rw [Table.get?_modify]
  by_cases hconcept : key'.concept = key.concept
  · rw [if_pos hconcept]
    cases r.byConcept.get? key'.concept with
    | none => simp
    | some shelf =>
        simp only [Option.map_some, Option.bind_some, Table.get?_modify]
        by_cases hname : key'.name = key.name
        · rw [if_pos hname, if_pos (key_eq hconcept hname)]
        · rw [if_neg hname, if_neg fun h => hname (congrArg InstanceKey.name h)]
  · rw [if_neg hconcept, if_neg fun h => hconcept (congrArg InstanceKey.concept h)]

theorem contains_modify (r : Registry) (key : InstanceKey) (f : Instance → Instance)
    (key' : InstanceKey) : (r.modify key f).contains key' = r.contains key' := by
  unfold contains
  rw [get?_modify]
  split
  · exact Option.isSome_map
  · rfl

theorem shelf_erase (r : Registry) (key : InstanceKey) (concept : String) :
    (r.erase key).shelf concept =
      if concept = key.concept then (r.shelf key.concept).erase key.name else r.shelf concept := by
  unfold shelf erase
  cases hshelf : r.byConcept.get? key.concept with
  | none =>
      by_cases hconcept : concept = key.concept
      · rw [if_pos hconcept, hconcept, hshelf]
        rfl
      · rw [if_neg hconcept]
  | some t =>
      dsimp only
      by_cases hconcept : concept = key.concept
      · rw [if_pos hconcept, hconcept]
        split
        · -- an empty shelf is put away
          rename_i hempty
          rw [Table.get?_erase, if_pos rfl]
          exact Table.ext_entries (List.isEmpty_iff.mp hempty).symm
        · rw [Table.get?_insert, if_pos rfl]
          rfl
      · rw [if_neg hconcept]
        split
        · rw [Table.get?_erase, if_neg hconcept]
        · rw [Table.get?_insert, if_neg hconcept]

theorem get?_erase (r : Registry) (key key' : InstanceKey) :
    (r.erase key).get? key' = if key' = key then none else r.get? key' := by
  rw [get?_eq_shelf, get?_eq_shelf, shelf_erase]
  by_cases hconcept : key'.concept = key.concept
  · rw [if_pos hconcept, Table.get?_erase, ← hconcept]
    by_cases hname : key'.name = key.name
    · rw [if_pos hname, if_pos (key_eq hconcept hname)]
    · rw [if_neg hname, if_neg fun h => hname (congrArg InstanceKey.name h)]
  · rw [if_neg hconcept, if_neg fun h => hconcept (congrArg InstanceKey.concept h)]

theorem contains_erase (r : Registry) (key key' : InstanceKey) :
    (r.erase key).contains key' = (!decide (key' = key) && r.contains key') := by
  unfold contains
  rw [get?_erase]
  by_cases h : key' = key <;> simp [h]

theorem get?_eraseConcept (r : Registry) (concept : String) (key : InstanceKey) :
    (r.eraseConcept concept).get? key = if key.concept = concept then none else r.get? key := by
  unfold get? eraseConcept
  rw [Table.get?_erase]
  split <;> rfl

/-! ## Listing -/

/-- The instances listed are those that stand under some key. -/
theorem mem_toList_iff {r : Registry} {i : Instance} :
    i ∈ r.toList ↔ ∃ key, r.get? key = some i := by
  unfold toList
  rw [List.mem_flatMap]
  constructor
  · rintro ⟨shelf, hshelf, hi⟩
    obtain ⟨concept, hconcept⟩ := Table.mem_values_iff.mp hshelf
    obtain ⟨name, hname⟩ := Table.mem_values_iff.mp hi
    exact ⟨⟨concept, name⟩, Option.bind_eq_some_iff.mpr ⟨shelf, hconcept, hname⟩⟩
  · rintro ⟨key, hkey⟩
    obtain ⟨shelf, hconcept, hname⟩ := Option.bind_eq_some_iff.mp hkey
    exact ⟨shelf, Table.mem_values_iff.mpr ⟨_, hconcept⟩, Table.mem_values_iff.mpr ⟨_, hname⟩⟩

/-! ## Counting -/

theorem size_eq_sum (r : Registry) : r.size = (r.byConcept.values.map Table.size).sum := by
  unfold size toList
  rw [List.length_flatMap]
  simp only [Table.length_values]

theorem size_replace (r : Registry) (i : Instance) :
    (r.replace i).size + (if r.contains i.key then 1 else 0) = r.size + 1 := by
  have hshelves := Table.sum_values_insert Table.size r.byConcept i.key.concept
    ((r.shelf i.key.concept).insert i.key.name i)
  have hshelf := Table.size_insert (r.shelf i.key.concept) i.key.name i
  have hcontains : (r.shelf i.key.concept).contains i.key.name = r.contains i.key :=
    congrArg Option.isSome (get?_eq_shelf r i.key).symm
  have hold : ((r.byConcept.get? i.key.concept).map Table.size).getD 0 =
      (r.shelf i.key.concept).size := by
    unfold shelf
    cases r.byConcept.get? i.key.concept <;> rfl
  rw [size_eq_sum, size_eq_sum]
  rw [hold] at hshelves
  rw [hcontains] at hshelf
  change ((r.replace i).byConcept.values.map Table.size).sum + _ = _ at hshelves
  omega

end Credence.Registry
