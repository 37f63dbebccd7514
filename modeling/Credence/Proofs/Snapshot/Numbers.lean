import Credence.Proofs.Decimal.Finite
import Credence.Proofs.Ontology.Kept
import Credence.Proofs.Snapshot.Value
import Credence.Snapshot.World

/-!
# The numbers of a snapshot

A snapshot holds the numbers in the properties of concepts and instances, the confidences of the
rules and the saliences of the conditions.  The saliences were looked at when the conditions were
read, so a snapshot has finite numbers only if the properties and the confidences are finite.
-/

namespace Credence

open Json

variable {P : Float → Prop}

/-! ## Properties -/

namespace Value

mutual

/-- The numbers in a value. -/
def numbers : Value → List Float
  | number x => [x]
  | list items => itemNumbers items
  | null | bool _ | text _ | date _ | concept _ | inst _ => []

/-- The numbers in some values. -/
def itemNumbers : List Value → List Float
  | [] => []
  | v :: rest => numbers v ++ itemNumbers rest

end

mutual

theorem allNumbers_toJson : ∀ v : Value, v.toJson.AllNumbers P ↔ ∀ x ∈ v.numbers, P x
  | null | bool _ | text _ | date _ | concept _ => by simp [toJson, numbers]
  | inst _ => by simp [toJson, numbers, InstanceKey.toJson]
  | number _ => by simp [toJson, numbers]
  | list items => by
      rw [toJson, allNumbers_tagged, allNumbers_list, numbers]
      exact allNumbers_listToJson items

theorem allNumbers_listToJson : ∀ items : List Value,
    (∀ j ∈ listToJson items, j.AllNumbers P) ↔ ∀ x ∈ itemNumbers items, P x
  | [] => by simp [listToJson, itemNumbers]
  | v :: rest => by
      rw [listToJson, itemNumbers, List.forall_mem_cons, List.forall_mem_append]
      exact and_congr (allNumbers_toJson v) (allNumbers_listToJson rest)

end

end Value

/-- Every number in some properties is of a kind. -/
def Properties.AllNumbers (P : Float → Prop) (ps : Properties) : Prop :=
  ∀ e ∈ ps.entries, ∀ x ∈ e.2.numbers, P x

instance [DecidablePred P] (ps : Properties) : Decidable (ps.AllNumbers P) :=
  inferInstanceAs (Decidable (∀ e ∈ ps.entries, ∀ x ∈ e.2.numbers, P x))

theorem Properties.allNumbers_toJson {ps : Properties} :
    ps.toJson.AllNumbers P ↔ ps.AllNumbers P :=
  allNumbers_table.trans (forall₂_congr fun e _ => e.2.allNumbers_toJson)

/-! ## Everything without numbers -/

@[simp] theorem NameSet.allNumbers_toJson (s : NameSet) : s.toJson.AllNumbers P := by
  simp [toJson]

@[simp] theorem InstanceKey.allNumbers_toJson (k : InstanceKey) : k.toJson.AllNumbers P := by
  simp [toJson]

@[simp] theorem Subject.allNumbers_toJson (s : Subject) : s.toJson.AllNumbers P := by
  cases s <;> simp [toJson]

@[simp] theorem Members.allNumbers_toJson (m : Members) : m.toJson.AllNumbers P := by
  simp [toJson]

@[simp] theorem Group.allNumbers_toJson (g : Group) : g.toJson.AllNumbers P := by
  simp [toJson]

/-! ## Concepts and rules -/

@[simp] theorem Concept.allNumbers_toJson {c : Concept} :
    c.toJson.AllNumbers P ↔ c.ownProperties.AllNumbers P := by
  have hfactory : ∀ field ∈ (c.chosenFactory.map fun f => ("factory", Json.text f.name)).toList,
      field.2.AllNumbers P := by
    cases c.chosenFactory <;> simp
  rw [toJson, allNumbers_object, List.forall_mem_append, and_iff_left hfactory]
  simp [Properties.allNumbers_toJson]

@[simp] theorem Rule.allNumbers_toJson {r : Rule} :
    r.toJson.AllNumbers P ↔ P r.confidence ∧ ∀ c ∈ r.conditions, P c.salience := by
  simp [toJson, Condition.toJson]

@[simp] theorem Relation.allNumbers_toJson {r : Relation} :
    r.toJson.AllNumbers P ↔ ∀ rule ∈ r.rules, rule.toJson.AllNumbers P := by
  simp [toJson]

theorem Condition.isFinite_salience {c : Condition} (hc : compile c.logic c.salience = .ok c) :
    Decimal.isFinite c.salience = true := by
  obtain ⟨-, -, hzero, hone⟩ := compile_eq_ok hc
  exact Decimal.isFinite_of_le_one hzero hone

/-! ## Worlds -/

/-- The numbers that were given are finite: those in properties, and the confidences of rules. -/
structure World.Finite (w : World) : Prop where
  concepts : ∀ e ∈ w.ontology.concepts.entries,
    e.2.ownProperties.AllNumbers fun x => Decimal.isFinite x = true
  rules : ∀ e ∈ w.ontology.relations.entries, ∀ rule ∈ e.2.rules,
    Decimal.isFinite rule.confidence = true
  instances : ∀ shelf ∈ w.registry.byConcept.entries, ∀ e ∈ shelf.2.entries,
    e.2.properties.AllNumbers fun x => Decimal.isFinite x = true

/-- Then every number in the snapshot is finite. -/
theorem World.Finite.allNumbers_toJson {w : World} (hw : w.Finite) (hontology : w.ontology.Compiled) :
    w.toJson.AllNumbers fun x => Decimal.isFinite x = true := by
  have hrules : ∀ e ∈ w.ontology.relations.entries, ∀ rule ∈ e.2.rules,
      rule.toJson.AllNumbers fun x => Decimal.isFinite x = true := by
    intro e he rule hrule
    have hcompiled := hontology e.1 e.2 (Table.get?_eq_some_of_mem he) rule hrule
    exact Rule.allNumbers_toJson.mpr
      ⟨hw.rules e he rule hrule, fun c hc => Condition.isFinite_salience (hcompiled c hc)⟩
  have hinstances : ∀ shelf ∈ w.registry.byConcept.entries, ∀ e ∈ shelf.2.entries,
      e.2.toJson.AllNumbers fun x => Decimal.isFinite x = true := by
    intro shelf hshelf e he
    simp [Instance.toJson, Properties.allNumbers_toJson, hw.instances shelf hshelf e he]
  simp only [toJson, Ontology.toJson, Registry.toJson, allNumbers_object, List.forall_mem_cons,
    allNumbers_table, Concept.allNumbers_toJson, Relation.allNumbers_toJson]
  have hnil := List.forall_mem_nil fun field : String × Json =>
    field.2.AllNumbers fun x => Decimal.isFinite x = true
  exact ⟨⟨hw.concepts, hrules, hnil⟩, ⟨hinstances, hnil⟩, hnil⟩

end Credence
