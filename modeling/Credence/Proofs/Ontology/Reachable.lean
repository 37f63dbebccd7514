import Credence.Ontology.Bundle
import Credence.Proofs.Ontology.Upkeep.Relations

/-!
# What changes can make of the empty ontology

`Ontology.Reachable` holds of the empty ontology and of what any change makes of one that it holds
of, whether the change is refused or not.  Conditions come in by `Condition.compile`, so they say
what their texts say.  By what was shown change by change, a reachable ontology is kept.
-/

namespace Credence.Ontology

variable {o : Ontology}

/-- What adding one concept preserves, importing preserves. -/
theorem preserves_addMissing {P : Ontology → Prop} (h : ∀ c, Preserves P (addConcept c))
    (concepts : List Concept) : Preserves P (addMissing concepts) := by
  induction concepts with
  | nil => exact preserves_pure _
  | cons c rest ih =>
      unfold addMissing
      refine preserves_get_bind fun o _ => ?_
      split
      · exact ih
      · exact preserves_bind (h c) fun _ => preserves_bind ih fun _ => preserves_pure _

theorem preserves_importBundle {P : Ontology → Prop} (h : ∀ c, Preserves P (addConcept c))
    (name : String) : Preserves P (importBundle name) := by
  unfold importBundle
  split
  · exact preserves_addMissing h _
  · exact preserves_throw _

theorem kept_importBundle (ho : o.Kept) (name : String) :
    (exec (importBundle name) o).2.Kept :=
  preserves_importBundle (P := Kept) (fun c _ ho => kept_addConcept ho c) name o ho

/-- The ontologies that changes lead to. -/
inductive Reachable : Ontology → Prop where
  | empty : Reachable {}
  | addConcept {o : Ontology} (ho : Reachable o) (c : Concept) :
      Reachable (exec (addConcept c) o).2
  | removeConcept {o : Ontology} (ho : Reachable o) (name : String) :
      Reachable (exec (removeConcept name) o).2
  | addParent {o : Ontology} (ho : Reachable o) (child parent : String) :
      Reachable (exec (addParent child parent) o).2
  | removeParent {o : Ontology} (ho : Reachable o) (child parent : String) :
      Reachable (exec (removeParent child parent) o).2
  | addAlias {o : Ontology} (ho : Reachable o) (concept other : String) :
      Reachable (exec (addAlias concept other) o).2
  | removeAlias {o : Ontology} (ho : Reachable o) (concept other : String) :
      Reachable (exec (removeAlias concept other) o).2
  | setProperty {o : Ontology} (ho : Reachable o) (concept key : String) (value : Value) :
      Reachable (exec (setProperty concept key value) o).2
  | removeProperty {o : Ontology} (ho : Reachable o) (concept key : String) :
      Reachable (exec (removeProperty concept key) o).2
  | setFactory {o : Ontology} (ho : Reachable o) (concept : String) (factory : Factory) :
      Reachable (exec (setFactory concept factory) o).2
  | addRelation {o : Ontology} (ho : Reachable o) {r : Relation}
      (hr : ∀ rule ∈ r.rules, rule.Compiled) : Reachable (exec (addRelation r) o).2
  | removeRelation {o : Ontology} (ho : Reachable o) (name : String) :
      Reachable (exec (removeRelation name) o).2
  | addRule {o : Ontology} (ho : Reachable o) (name : String) {rule : Rule}
      (hrule : rule.Compiled) : Reachable (exec (addRule name rule) o).2
  | removeRule {o : Ontology} (ho : Reachable o) (name : String) (id : RuleId) :
      Reachable (exec (removeRule name id) o).2
  | addCondition {o : Ontology} (ho : Reachable o) (name : String) (id : RuleId) {c : Condition}
      (hc : Condition.compile c.logic c.salience = .ok c) :
      Reachable (exec (addCondition name id c) o).2
  | removeCondition {o : Ontology} (ho : Reachable o) (name : String) (id : RuleId) (index : Nat) :
      Reachable (exec (removeCondition name id index) o).2
  | addRuleMember {o : Ontology} (ho : Reachable o) (name : String) (id : RuleId) (side : Side)
      (member : Subject) : Reachable (exec (addRuleMember name id side member) o).2
  | removeRuleMember {o : Ontology} (ho : Reachable o) (name : String) (id : RuleId) (side : Side)
      (member : Subject) : Reachable (exec (removeRuleMember name id side member) o).2
  | importBundle {o : Ontology} (ho : Reachable o) (name : String) :
      Reachable (exec (importBundle name) o).2
  | rebuild {o : Ontology} (ho : Reachable o) : Reachable o.rebuild

theorem kept_empty : ({} : Ontology).Kept where
  linked :=
    { names := fun hd => nomatch hd
      edges := fun hp _ => nomatch hp
      acyclic := fun name h => by
        obtain ⟨c, hc, -⟩ := Relation.TransGen.head'_iff.mp h
        obtain ⟨d, hd, -⟩ := child_iff.mp hc
        nomatch hd }
  settled := fun _ _ hc => nomatch hc
  viewed := fun _ _ hr => nomatch hr
  counted := fun _ _ hc => nomatch hc
  compiled := fun _ _ hr => nomatch hr
  named := fun _ _ hr => nomatch hr
  grounded := fun _ _ hr => nomatch hr

/-- Every reachable ontology is up to date. -/
theorem Reachable.kept (h : o.Reachable) : o.Kept := by
  induction h with
  | empty => exact kept_empty
  | addConcept _ c ih => exact kept_addConcept ih c
  | removeConcept _ name ih => exact kept_removeConcept ih name
  | addParent _ child parent ih => exact kept_addParent ih child parent
  | removeParent _ child parent ih => exact kept_removeParent ih child parent
  | addAlias _ concept other ih => exact kept_addAlias ih concept other
  | removeAlias _ concept other ih => exact kept_removeAlias ih concept other
  | setProperty _ concept key value ih => exact kept_setProperty ih concept key value
  | removeProperty _ concept key ih => exact kept_removeProperty ih concept key
  | setFactory _ concept factory ih => exact kept_setFactory ih concept factory
  | addRelation _ hr ih => exact kept_addRelation ih hr
  | removeRelation _ name ih => exact kept_removeRelation ih name
  | addRule _ name hrule ih => exact kept_addRule ih name hrule
  | removeRule _ name id ih => exact kept_removeRule ih name id
  | addCondition _ name id hc ih => exact kept_addCondition ih name id hc
  | removeCondition _ name id index ih => exact kept_removeCondition ih name id index
  | addRuleMember _ name id side member ih => exact kept_addRuleMember ih name id side member
  | removeRuleMember _ name id side member ih => exact kept_removeRuleMember ih name id side member
  | importBundle _ name ih => exact kept_importBundle ih name
  | rebuild _ ih =>
      rw [ih.rebuild_eq_self]
      exact ih

end Credence.Ontology
