import Credence.Proofs.Ontology.Reachable

/-!
# The hierarchy of concepts

An edge may be declared at either end and before the other end exists, and it counts from the moment
at which both do.  However an ontology came about, the edges that count can be read off the parents
or off the children, no chain of them comes back to where it starts, and `ancestors` and
`descendants` find exactly what the chains lead to.

The edges of an ontology agree at their two ends, so a concept that is removed takes all of its
edges with it: whoever names it is named by it (`Linked.not_named_of_removed`).
-/

section Hierarchy

open Relation (TransGen)

namespace Credence.Ontology

variable {o o' : Ontology} {name c p x : String} {d removed : Concept}

/-! ## Chains of parents -/

/-- A concept names an existing parent. -/
def Parent (o : Ontology) (c p : String) : Prop :=
  ∃ d, o.concepts.get? c = some d ∧ d.parents.has p = true ∧ o.hasConcept p = true

theorem Linked.parent_iff (ho : o.Linked) : o.Parent c p ↔ o.Child p c :=
  mem_neighbours.symm.trans ho.mem_parents_iff

/-- A chain of parents is a chain of children that is read from its other end. -/
theorem Linked.transGen_parent_iff (ho : o.Linked) :
    TransGen o.Parent c p ↔ TransGen o.Child p c := by
  have hswap : o.Parent = Function.swap o.Child :=
    funext fun a => funext fun b => propext ho.parent_iff
  rw [hswap, Relation.transGen_swap]

/-! ## Removing a concept -/

/-- Without a concept and its edges, nobody names it. -/
theorem Linked.not_named_of_removed (ho : o.Linked) (hc : o.concepts.get? name = some removed)
    (hd : (o.removed name removed).concepts.get? x = some d) :
    d.parents.has name = false ∧ d.children.has name = false := by
  rw [get?_removed] at hd
  by_cases hx : x = name
  · rw [if_pos hx] at hd
    nomatch hd
  rw [if_neg hx] at hd
  obtain ⟨e, he, rfl⟩ := Option.map_eq_some_iff.mp hd
  -- what it named it, it named as well, and from all these it was removed
  constructor
  · by_cases hchild : removed.children.has x = true
    · simp [hchild]
    · rw [if_neg hchild, ← ho.edges hc he]
      exact Bool.eq_false_iff.mpr hchild
  · by_cases hparent : removed.parents.has x = true
    · simp [hparent]
    · rw [if_neg hparent, ho.edges he hc]
      exact Bool.eq_false_iff.mpr hparent

/-- What a removal that goes through makes of what is declared. -/
theorem declared_of_removeConcept
    (h : exec (removeConcept name) o = (.ok removed, o')) :
    o.concepts.get? name = some removed ∧ o'.declared = (o.removed name removed).declared := by
  unfold removeConcept at h
  rw [exec_bind, exec_theConcept] at h
  cases hc : o.concepts.get? name with
  | none =>
      rw [hc] at h
      nomatch h
  | some c =>
      rw [hc] at h
      dsimp only at h
      rw [exec_bind_ok (exec_get o)] at h
      split at h
      · rw [exec_violates_bind] at h
        nomatch h
      · cases h
        refine ⟨rfl, ?_⟩
        rw [declared_refresh, foldl_cascade_keeps declared_inherit]
        rfl

/-- In an ontology that changes have led to, the parents and the children declare the same edges
between existing concepts; no chain of parents comes back to where it starts; what lies above a
concept is what chains of parents lead to, and what lies below it is what they lead from; and a
concept that is removed is named by no other any more. -/
theorem hierarchy_wellFormed (h : o.Reachable) :
    (∀ p c dp dc, o.concepts.get? p = some dp → o.concepts.get? c = some dc →
      (dp.children.has c = true ↔ dc.parents.has p = true)) ∧
    (∀ c, ¬ TransGen o.Parent c c) ∧
    (∀ c a, (o.ancestors c).has a = true ↔ TransGen o.Parent c a) ∧
    (∀ c d, (o.descendants c).has d = true ↔ TransGen o.Parent d c) ∧
    (∀ c a, (o.ancestors c).has a = true ↔ (o.descendants a).has c = true) ∧
    ∀ name removed o', exec (removeConcept name) o = (.ok removed, o') →
      o'.hasConcept name = false ∧ ∀ x d, o'.concepts.get? x = some d →
        d.parents.has name = false ∧ d.children.has name = false := by
  have ho := h.kept.linked
  refine ⟨fun p c dp dc hp hc => ?_, fun c hcycle => ?_, fun c a => ?_, fun c d => ?_,
    fun c a => ?_, fun name removed o' hrun => ?_⟩
  · rw [ho.edges hp hc]
  · exact ho.acyclic c (ho.transGen_parent_iff.mp hcycle)
  · rw [ho.has_ancestors_iff, ho.transGen_parent_iff]
  · rw [ho.has_descendants_iff, ho.transGen_parent_iff]
  · rw [ho.has_ancestors_iff, ho.has_descendants_iff]
  · obtain ⟨hc, hdeclared⟩ := declared_of_removeConcept hrun
    refine ⟨?_, fun x d hd => ?_⟩
    · rw [hasConcept_congr (shape_eq_of_declared hdeclared), hasConcept, Table.contains,
        get?_removed, if_pos rfl]
      rfl
    · obtain ⟨e, he, heq⟩ := exists_of_declared_eq hdeclared hd
      have hshape := Concept.shape_eq_of_declared heq
      rw [← Concept.parents_eq_of_shape hshape, ← Concept.children_eq_of_shape hshape]
      exact ho.not_named_of_removed hc he

/-- Vehicles by land and by water, and what is both.  Some of them are named before they exist. -/
def vehicles : Ontology :=
  let concepts : List Concept := [
    { name := "Boat", category := .abstract, parents := KeySet.ofList ["Vehicle"],
      children := KeySet.ofList ["Amphibian"],
      ownProperties := Table.ofList [("moves on", .text "water")] },
    { name := "Amphibian", category := .dynamic, parents := KeySet.ofList ["Car"] },
    { name := "Vehicle", category := .abstract, ownAliases := KeySet.ofList ["conveyance"],
      ownProperties := Table.ofList [("moves on", .text "land")] },
    { name := "Car", category := .abstract, parents := KeySet.ofList ["Vehicle"] }]
  concepts.foldl (fun o c => (exec (addConcept c) o).2) {}

theorem reachable_vehicles : vehicles.Reachable :=
  (((Reachable.empty.addConcept _).addConcept _).addConcept _).addConcept _

/-- Without boats, an amphibian is still a vehicle, as a car. -/
theorem hierarchy_vehicles :
    TransGen vehicles.Parent "Amphibian" "Vehicle" ∧
      (vehicles.descendants "Vehicle").has "Amphibian" = true ∧
      ∀ x d, (exec (removeConcept "Boat") vehicles).2.concepts.get? x = some d →
        d.parents.has "Boat" = false ∧ d.children.has "Boat" = false := by
  obtain ⟨-, -, hancestors, -, hagree, hremove⟩ := hierarchy_wellFormed reachable_vehicles
  obtain ⟨habove, hgone⟩ : (vehicles.ancestors "Amphibian").has "Vehicle" = true ∧
      (exec (removeConcept "Boat") vehicles).1.isOk = true := by decide +kernel
  refine ⟨(hancestors _ _).mp habove, (hagree _ _).mp habove, ?_⟩
  generalize hrun : exec (removeConcept "Boat") vehicles = run at hgone
  obtain ⟨outcome, o'⟩ := run
  cases outcome with
  | error e => nomatch hgone
  | ok removed => exact (hremove "Boat" removed o' hrun).2

end Credence.Ontology

end Hierarchy
