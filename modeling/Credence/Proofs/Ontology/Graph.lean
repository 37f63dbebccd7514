import Credence.Proofs.Collection.Reachable
import Credence.Proofs.Ontology.Declared
import Mathlib.Data.Finset.Card

/-!
# The graph of concepts

`Child o p c` is an edge that counts: both concepts exist, and `p` names `c` among its children.  In
a linked ontology the edges are the same when they are read off the parents, concepts stand under
their own names, and no concept lies below itself.

What is inherited flows along the edges, so statements about it are proved by induction along them:
`rank`, the number of concepts above one, grows along every edge.
-/

section Graph

open Relation (TransGen ReflTransGen)

namespace Credence.Ontology

variable {o o' : Ontology} {p c name : String} {dp dc d : Concept}

/-- The edges between existing concepts. -/
def Child (o : Ontology) (p c : String) : Prop := c ∈ o.neighbours Concept.children p

theorem mem_neighbours {edges : Concept → NameSet} :
    c ∈ o.neighbours edges p ↔
      ∃ d, o.concepts.get? p = some d ∧ (edges d).has c = true ∧ o.hasConcept c = true := by
  unfold neighbours
  cases hp : o.concepts.get? p with
  | none => simp
  | some d => simp [KeySet.mem_toList_iff]

theorem child_iff :
    o.Child p c ↔
      ∃ d, o.concepts.get? p = some d ∧ d.children.has c = true ∧ o.hasConcept c = true :=
  mem_neighbours

theorem hasConcept_iff : o.hasConcept name = true ↔ ∃ d, o.concepts.get? name = some d :=
  Table.contains_iff

theorem hasConcept_of_get? (h : o.concepts.get? name = some d) : o.hasConcept name = true :=
  hasConcept_iff.mpr ⟨d, h⟩

theorem Child.hasConcept_parent (h : o.Child p c) : o.hasConcept p = true := by
  obtain ⟨d, hd, -⟩ := child_iff.mp h
  exact hasConcept_of_get? hd

theorem Child.hasConcept_child (h : o.Child p c) : o.hasConcept c = true := by
  obtain ⟨d, -, -, hc⟩ := child_iff.mp h
  exact hc

theorem child_congr (h : o.shape = o'.shape) : o.Child = o'.Child := by
  funext p c
  unfold Child
  rw [neighbours_congr h Concept.children_eq_of_shape]

/-- Concepts stand under their names, edges are declared at both ends, and there is no circle. -/
structure Linked (o : Ontology) : Prop where
  names {name : String} {d : Concept} (hd : o.concepts.get? name = some d) : d.name = name
  edges {p c : String} {dp dc : Concept} (hp : o.concepts.get? p = some dp)
    (hc : o.concepts.get? c = some dc) : dp.children.has c = dc.parents.has p
  acyclic (name : String) : ¬ TransGen o.Child name name

theorem Linked.congr (h : o.shape = o'.shape) (ho : o.Linked) : o'.Linked where
  names {name d} hd := by
    obtain ⟨e, he, heq⟩ := exists_of_shape_eq h.symm hd
    rw [← ho.names he]
    exact (Concept.name_eq_of_shape heq).symm
  edges {p c dp dc} hp hc := by
    obtain ⟨ep, hep, heqp⟩ := exists_of_shape_eq h.symm hp
    obtain ⟨ec, hec, heqc⟩ := exists_of_shape_eq h.symm hc
    rw [← Concept.children_eq_of_shape heqp, ← Concept.parents_eq_of_shape heqc]
    exact ho.edges hep hec
  acyclic name := by
    rw [← child_congr h]
    exact ho.acyclic name

/-- An edge read off the parents. -/
theorem Linked.child_of_parent (ho : o.Linked) (hp : o.hasConcept p = true)
    (hc : o.concepts.get? c = some dc) (hparent : dc.parents.has p = true) : o.Child p c := by
  obtain ⟨dp, hdp⟩ := hasConcept_iff.mp hp
  exact child_iff.mpr ⟨dp, hdp, by rw [ho.edges hdp hc, hparent], hasConcept_of_get? hc⟩

theorem Linked.parent_of_child (ho : o.Linked) (hc : o.concepts.get? c = some dc)
    (hchild : o.Child p c) : dc.parents.has p = true := by
  obtain ⟨dp, hdp, hhas, -⟩ := child_iff.mp hchild
  rw [← ho.edges hdp hc, hhas]

/-! ## The order of a linked ontology -/

/-- The number of concepts above a concept. -/
noncomputable def rank (o : Ontology) (name : String) : Nat := by
  classical
  exact (o.concepts.keys.toFinset.filter fun a => TransGen o.Child a name).card

/-- The rank grows along the edges. -/
theorem Linked.rank_lt (ho : o.Linked) (h : o.Child p c) : o.rank p < o.rank c := by
  classical
  have hmem : ∀ a, o.hasConcept a = true → a ∈ o.concepts.keys.toFinset := fun a ha =>
    List.mem_toFinset.mpr (Table.mem_keys_iff.mpr ha)
  unfold rank
  refine Finset.card_lt_card ((Finset.ssubset_iff_of_subset fun a ha => ?_).mpr ⟨p, ?_, ?_⟩)
  · obtain ⟨hexists, habove⟩ := Finset.mem_filter.mp ha
    exact Finset.mem_filter.mpr ⟨hexists, habove.tail h⟩
  · exact Finset.mem_filter.mpr ⟨hmem p h.hasConcept_parent, TransGen.single h⟩
  · intro ha
    exact ho.acyclic p (Finset.mem_filter.mp ha).2

/-- What holds of a concept as soon as it holds of all its parents holds of every concept. -/
theorem Linked.induction (ho : o.Linked) {motive : String → Prop}
    (step : ∀ name, (∀ p, o.Child p name → motive p) → motive name) (name : String) :
    motive name := by
  induction hrank : o.rank name using Nat.strong_induction_on generalizing name with
  | _ n ih => exact step name fun p hp => ih (o.rank p) (hrank ▸ ho.rank_lt hp) p rfl

/-- Every concept lies below one without existing parents, or is one. -/
theorem Linked.exists_root (ho : o.Linked) (hname : o.hasConcept name = true) :
    ∃ root, (∀ p, ¬ o.Child p root) ∧ o.hasConcept root = true ∧ ReflTransGen o.Child root name := by
  induction name using ho.induction with
  | step name ih =>
      by_cases hroot : ∀ p, ¬ o.Child p name
      · exact ⟨name, hroot, hname, ReflTransGen.refl⟩
      · push Not at hroot
        obtain ⟨p, hp⟩ := hroot
        obtain ⟨root, hfree, hexists, hpath⟩ := ih p hp hp.hasConcept_parent
        exact ⟨root, hfree, hexists, hpath.tail hp⟩

/-- A chain of concepts is no longer than there are concepts. -/
theorem length_le_size {chain : List String} (hdistinct : chain.Nodup)
    (hexists : ∀ a ∈ chain, o.hasConcept a = true) : chain.length ≤ o.concepts.size := by
  have hsub : chain ⊆ o.concepts.keys := fun a ha => Table.mem_keys_iff.mpr (hexists a ha)
  have hle := (List.subperm_of_subset hdistinct hsub).length_le
  rwa [Table.length_keys] at hle

/-! ## Finding what lies above and below -/

theorem neighbours_nodup (edges : Concept → NameSet) (name : String) :
    (o.neighbours edges name).Nodup := by
  unfold neighbours
  split
  · exact (Table.keys_nodup _).filter _
  · exact List.nodup_nil

theorem mem_keys_of_mem_neighbours (edges : Concept → NameSet) (name : String) :
    ∀ x ∈ o.neighbours edges name, x ∈ o.concepts.keys := by
  intro x hx
  obtain ⟨-, -, -, hexists⟩ := mem_neighbours.mp hx
  exact Table.mem_keys_iff.mpr hexists

/-- What lies below a concept is found. -/
theorem has_descendants (h : TransGen o.Child name c) (hne : c ≠ name) :
    (o.descendants name).has c = true :=
  KeySet.has_reachable (Table.keys_nodup _) (mem_keys_of_mem_neighbours _) (neighbours_nodup _)
    (by rw [Table.length_keys]) h hne

/-- Exactly what lies below a concept is found. -/
theorem Linked.has_descendants_iff (ho : o.Linked) :
    (o.descendants name).has c = true ↔ TransGen o.Child name c := by
  refine ⟨KeySet.transGen_of_has_reachable, fun h => has_descendants h ?_⟩
  rintro rfl
  exact ho.acyclic c h

/-- The edges of a linked ontology can be read off the parents. -/
theorem Linked.mem_parents_iff (ho : o.Linked) :
    p ∈ o.neighbours Concept.parents c ↔ o.Child p c := by
  rw [mem_neighbours]
  constructor
  · rintro ⟨dc, hdc, hparent, hp⟩
    exact ho.child_of_parent hp hdc hparent
  · intro h
    obtain ⟨dc, hdc⟩ := hasConcept_iff.mp h.hasConcept_child
    exact ⟨dc, hdc, ho.parent_of_child hdc h, h.hasConcept_parent⟩

/-- Exactly what lies above a concept is found. -/
theorem Linked.has_ancestors_iff (ho : o.Linked) :
    (o.ancestors name).has p = true ↔ TransGen o.Child p name := by
  have hup : TransGen (fun a b => b ∈ o.neighbours Concept.parents a) name p ↔
      TransGen o.Child p name := by
    rw [show (fun a b => b ∈ o.neighbours Concept.parents a) = Function.swap o.Child from
      funext fun a => funext fun b => propext ho.mem_parents_iff, Relation.transGen_swap]
  rw [← hup]
  refine ⟨KeySet.transGen_of_has_reachable, fun h => ?_⟩
  refine KeySet.has_reachable (Table.keys_nodup _) (mem_keys_of_mem_neighbours _)
    (neighbours_nodup _) (by rw [Table.length_keys]) h ?_
  rintro rfl
  exact ho.acyclic p (hup.mp h)

end Credence.Ontology

end Graph
