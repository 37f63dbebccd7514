import Credence.Ontology.Inheritance
import Credence.Ontology.Membership
import Credence.Proofs.Collection.Table

/-!
# What is declared and what follows

Some fields of a concept, a group or a rule are declared, the others are computed from what is
declared.  `declared` blanks out the computed ones, and computing anything anew leaves it as it is.

Of what a concept declares, only its name and its edges decide what lies above and below it, and so
what is in a view.  They are its `shape`.
-/

namespace Credence

/-! ## The declared parts -/

/-- A concept without what it inherits and the memberships. -/
def Concept.declared (c : Concept) : Concept := { c with inherited := {}, memberships := ∅ }

/-- A concept is what it declares together with what is computed. -/
theorem Concept.eq_of_declared {c c' : Concept} (hdeclared : c.declared = c'.declared)
    (hinherited : c.inherited = c'.inherited) (hmemberships : c.memberships = c'.memberships) :
    c = c' := by
  have h : { c.declared with inherited := c.inherited, memberships := c.memberships } =
      { c'.declared with inherited := c'.inherited, memberships := c'.memberships } := by
    rw [hdeclared, hinherited, hmemberships]
  exact h

/-- The name and the edges of a concept. -/
def Concept.shape (c : Concept) : String × NameSet × NameSet := (c.name, c.parents, c.children)

theorem Concept.name_eq_of_shape {c c' : Concept} (h : c.shape = c'.shape) : c.name = c'.name :=
  (Prod.mk.inj h).1

theorem Concept.parents_eq_of_shape {c c' : Concept} (h : c.shape = c'.shape) :
    c.parents = c'.parents :=
  (Prod.mk.inj (Prod.mk.inj h).2).1

theorem Concept.children_eq_of_shape {c c' : Concept} (h : c.shape = c'.shape) :
    c.children = c'.children :=
  (Prod.mk.inj (Prod.mk.inj h).2).2

theorem Concept.shape_eq_of_declared {c c' : Concept} (h : c.declared = c'.declared) :
    c.shape = c'.shape := by
  have hshape := congrArg Concept.shape h
  exact hshape

/-- The members of a side without the view. -/
def Members.declared (m : Members) : Members := { m with view := ∅ }

/-- A rule without the views. -/
def Rule.declared (r : Rule) : Rule :=
  { r with domains := r.domains.declared, targets := r.targets.declared }

/-- A group without the view. -/
def Group.declared (g : Group) : Group := { g with view := ∅ }

/-- A relation without any view. -/
def Relation.declared (r : Relation) : Relation :=
  { r with
    domains := r.domains.map Group.declared
    targets := r.targets.map Group.declared
    rules := r.rules.map Rule.declared }

namespace Ontology

/-- The declared parts of the concepts. -/
def declared (o : Ontology) : Table String Concept := o.concepts.mapValues fun _ c => c.declared

/-- The names and edges of the concepts. -/
def shape (o : Ontology) : Table String (String × NameSet × NameSet) :=
  o.concepts.mapValues fun _ c => c.shape

variable {o o' : Ontology} {name : String} {c c' : Concept}

theorem get?_declared (o : Ontology) (name : String) :
    o.declared.get? name = (o.concepts.get? name).map Concept.declared :=
  Table.get?_mapValues _ _ _

theorem get?_shape (o : Ontology) (name : String) :
    o.shape.get? name = (o.concepts.get? name).map Concept.shape :=
  Table.get?_mapValues _ _ _

theorem shape_eq_of_declared (h : o.declared = o'.declared) : o.shape = o'.shape := by
  have hshape : ∀ o : Ontology, o.shape = o.declared.mapValues fun _ c => c.shape := by
    intro o
    refine Table.ext_get? fun n => ?_
    rw [get?_shape, Table.get?_mapValues, get?_declared, Option.map_map]
    rfl
  rw [hshape, h, ← hshape]

/-- Ontologies with the same declared parts have the same concepts up to what is computed. -/
theorem exists_of_declared_eq (h : o.declared = o'.declared)
    (hc : o.concepts.get? name = some c) :
    ∃ c', o'.concepts.get? name = some c' ∧ c'.declared = c.declared := by
  have hname := get?_declared o' name
  rw [← h, get?_declared, hc] at hname
  obtain ⟨c', hc', heq⟩ := Option.map_eq_some_iff.mp hname.symm
  exact ⟨c', hc', heq⟩

theorem exists_of_shape_eq (h : o.shape = o'.shape) (hc : o.concepts.get? name = some c) :
    ∃ c', o'.concepts.get? name = some c' ∧ c'.shape = c.shape := by
  have hname := get?_shape o' name
  rw [← h, get?_shape, hc] at hname
  obtain ⟨c', hc', heq⟩ := Option.map_eq_some_iff.mp hname.symm
  exact ⟨c', hc', heq⟩

theorem none_of_shape_eq (h : o.shape = o'.shape) (hc : o.concepts.get? name = none) :
    o'.concepts.get? name = none := by
  have hname := get?_shape o' name
  rw [← h, get?_shape, hc] at hname
  exact Option.map_eq_none_iff.mp hname.symm

/-! ## Edges and views depend on the shape -/

theorem hasConcept_congr (h : o.shape = o'.shape) (name : String) :
    o.hasConcept name = o'.hasConcept name := by
  have hcontains := congrArg (fun t => t.contains name) h
  simpa only [shape, hasConcept, Table.contains_mapValues] using hcontains

theorem size_congr (h : o.shape = o'.shape) : o.concepts.size = o'.concepts.size := by
  have hkeys := congrArg (fun t => t.keys.length) h
  simpa only [shape, Table.keys_mapValues, Table.length_keys] using hkeys

theorem neighbours_congr (h : o.shape = o'.shape) {edges : Concept → NameSet}
    (hedges : ∀ {c c' : Concept}, c.shape = c'.shape → edges c = edges c') (name : String) :
    o.neighbours edges name = o'.neighbours edges name := by
  have hhas : o.hasConcept = o'.hasConcept := funext (hasConcept_congr h)
  unfold neighbours
  rw [hhas]
  cases hc : o.concepts.get? name with
  | some c =>
      obtain ⟨c', hc', heq⟩ := exists_of_shape_eq h hc
      rw [hc']
      simp only [hedges heq]
  | none => rw [none_of_shape_eq h hc]

theorem ancestors_congr (h : o.shape = o'.shape) (name : String) :
    o.ancestors name = o'.ancestors name := by
  unfold ancestors
  rw [funext (neighbours_congr h Concept.parents_eq_of_shape), size_congr h]

theorem descendants_congr (h : o.shape = o'.shape) (name : String) :
    o.descendants name = o'.descendants name := by
  unfold descendants
  rw [funext (neighbours_congr h Concept.children_eq_of_shape), size_congr h]

theorem expand_congr (h : o.shape = o'.shape) (reach : Reach) (bases : List String) :
    o.expand reach bases = o'.expand reach bases := by
  unfold expand
  rw [show o.hasConcept = o'.hasConcept from funext (hasConcept_congr h),
    show o.descendants = o'.descendants from funext (descendants_congr h),
    show o.ancestors = o'.ancestors from funext (ancestors_congr h)]

theorem refreshRule_congr (h : o.shape = o'.shape) : o.refreshRule = o'.refreshRule := by
  funext r
  unfold refreshRule
  rw [expand_congr h, expand_congr h]

theorem refreshGroup_congr (h : o.shape = o'.shape) : o.refreshGroup = o'.refreshGroup := by
  funext g
  unfold refreshGroup
  rw [expand_congr h]

theorem refreshRelation_congr (h : o.shape = o'.shape) :
    o.refreshRelation = o'.refreshRelation := by
  funext r
  unfold refreshRelation
  rw [refreshRule_congr h, refreshGroup_congr h]

theorem refreshRule_declared (o : Ontology) (r : Rule) :
    o.refreshRule r.declared = o.refreshRule r := rfl

theorem refreshGroup_declared (o : Ontology) (g : Group) :
    o.refreshGroup g.declared = o.refreshGroup g := rfl

theorem refreshRelation_declared (o : Ontology) (r : Relation) :
    o.refreshRelation r.declared = o.refreshRelation r := by
  unfold refreshRelation Relation.declared
  simp only [List.map_map, Function.comp_def, refreshRule_declared, refreshGroup_declared]

theorem declared_refreshRelation (o : Ontology) (r : Relation) :
    (o.refreshRelation r).declared = r.declared := by
  unfold refreshRelation Relation.declared
  simp only [List.map_map, Function.comp_def]
  rfl

/-- Views that were just computed stay. -/
theorem refreshRelation_idem (o : Ontology) (r : Relation) :
    o.refreshRelation (o.refreshRelation r) = o.refreshRelation r := by
  rw [← refreshRelation_declared, declared_refreshRelation, refreshRelation_declared]

/-! ## Computing anew -/

theorem declared_mapValues (o : Ontology) (f : String → Concept → Concept)
    (hf : ∀ n c, (f n c).declared = c.declared) (relations : Table String Relation) :
    (⟨o.concepts.mapValues f, relations⟩ : Ontology).declared = o.declared := by
  refine Table.ext_get? fun n => ?_
  simp only [declared, Table.get?_mapValues, Option.map_map, Function.comp_def, hf]

@[simp] theorem declared_recount (o : Ontology) : o.recount.declared = o.declared :=
  declared_mapValues o (fun _ c => { c with memberships := o.membershipsOf c.name })
    (fun _ _ => rfl) _

@[simp] theorem declared_refresh (o : Ontology) : o.refresh.declared = o.declared :=
  declared_recount _

@[simp] theorem relations_recount (o : Ontology) : o.recount.relations = o.relations := rfl

@[simp] theorem relations_refresh (o : Ontology) :
    o.refresh.relations = o.relations.mapValues fun _ r => o.refreshRelation r := rfl

@[simp] theorem declared_inherit (o : Ontology) (name : String) :
    (o.inherit name).declared = o.declared := by
  refine Table.ext_get? fun n => ?_
  rw [get?_declared, get?_declared, inherit, Table.get?_modify]
  by_cases hn : n = name
  · rw [if_pos hn, Option.map_map]
    rfl
  · rw [if_neg hn]

@[simp] theorem relations_inherit (o : Ontology) (name : String) :
    (o.inherit name).relations = o.relations := rfl

end Ontology

end Credence
