import Credence.Ontology.Change
import Credence.Proofs.Ontology.Cascade

/-!
# Ontologies that are up to date

In a *kept* ontology everything computed is what computing it anew would give.  So `rebuild` gives
back a kept ontology from its declared parts alone (`Kept.rebuild_eq`), whatever the computed fields
hold when it starts: every concept lies below a root, so the walks down from the roots settle all of
them, and the views and memberships follow.  Besides, the conditions of its rules say what their
texts say, the bases of its rules exist, and its relations stand under their own names.

The changes of an ontology keep it; that is shown change by change in the modules of `Upkeep`.
-/

namespace Credence

/-- A condition has the text and the salience that it was read from. -/
theorem Condition.compile_eq_ok {logic : String} {salience : Float} {c : Condition}
    (h : compile logic salience = .ok c) :
    c.logic = logic ∧ c.salience = salience ∧ 0 ≤ salience ∧ salience ≤ 1 := by
  unfold compile at h
  split at h
  · rename_i hbounds
    split at h
    · cases h
      exact ⟨rfl, rfl, hbounds⟩
    · nomatch h
  · nomatch h

theorem Condition.compile_self {logic : String} {salience : Float} {c : Condition}
    (h : compile logic salience = .ok c) : compile c.logic c.salience = .ok c := by
  obtain ⟨rfl, rfl, -⟩ := compile_eq_ok h
  exact h

/-- The conditions of a rule say what their texts say. -/
def Rule.Compiled (rule : Rule) : Prop :=
  ∀ c ∈ rule.conditions, Condition.compile c.logic c.salience = .ok c

namespace Ontology

variable {o o' : Ontology} {name : String}

/-- Every view is what computing it anew would give. -/
def Viewed (o : Ontology) : Prop :=
  ∀ name r, o.relations.get? name = some r → o.refreshRelation r = r

/-- Every concept has its memberships. -/
def Counted (o : Ontology) : Prop :=
  ∀ name c, o.concepts.get? name = some c → c.memberships = o.membershipsOf c.name

/-- Every condition says what its text says. -/
def Compiled (o : Ontology) : Prop :=
  ∀ name r, o.relations.get? name = some r → ∀ rule ∈ r.rules, rule.Compiled

/-- Every relation stands under its own name. -/
def Named (o : Ontology) : Prop :=
  ∀ name r, o.relations.get? name = some r → r.name = name

/-- The bases of a rule are existing concepts and instances of such. -/
def Grounds (o : Ontology) (rule : Rule) : Prop :=
  ∀ side member, (rule.members side).bases.has member = true →
    o.hasConcept member.conceptName = true

/-- The bases of every rule exist. -/
def Grounded (o : Ontology) : Prop :=
  ∀ name r, o.relations.get? name = some r → ∀ rule ∈ r.rules, o.Grounds rule

/-- The groups and rules of a relation have their views. -/
theorem Viewed.parts {r : Relation} (h : o.Viewed) (hr : o.relations.get? name = some r) :
    r.domains.map o.refreshGroup = r.domains ∧ r.targets.map o.refreshGroup = r.targets ∧
      r.rules.map o.refreshRule = r.rules :=
  ⟨congrArg Relation.domains (h name r hr), congrArg Relation.targets (h name r hr),
    congrArg Relation.rules (h name r hr)⟩

/-- An ontology is up to date. -/
structure Kept (o : Ontology) : Prop where
  linked : o.Linked
  settled : o.Settled
  viewed : o.Viewed
  counted : o.Counted
  compiled : o.Compiled
  named : o.Named
  grounded : o.Grounded

/-! ## Views and memberships -/

theorem membershipsOf_congr (h : o.relations = o'.relations) :
    o.membershipsOf = o'.membershipsOf := by
  funext c
  unfold membershipsOf
  rw [h]

theorem counted_recount (o : Ontology) : o.recount.Counted := by
  intro name c' hc'
  rw [recount, Table.get?_mapValues] at hc'
  obtain ⟨c, -, rfl⟩ := Option.map_eq_some_iff.mp hc'
  rfl

theorem viewed_congr (hshape : o.shape = o'.shape) (hrelations : o.relations = o'.relations)
    (h : o.Viewed) : o'.Viewed := by
  intro name r hr
  rw [← refreshRelation_congr hshape]
  exact h name r (by rw [hrelations, hr])

/-- What holds of the relations that have been given their views holds afterwards. -/
theorem forall_refreshed {P : String → Relation → Prop}
    (h : ∀ name r, o.relations.get? name = some r → P name (o.refreshRelation r)) :
    ∀ name r, o.refresh.relations.get? name = some r → P name r := by
  intro name r' hr'
  rw [relations_refresh, Table.get?_mapValues] at hr'
  obtain ⟨r, hr, rfl⟩ := Option.map_eq_some_iff.mp hr'
  exact h name r hr

/-- Rules that are grounded stay so while no concept goes away. -/
theorem Grounded.congr (hconcepts : ∀ x, o.hasConcept x = true → o'.hasConcept x = true)
    (hrelations : o'.relations = o.relations) (h : o.Grounded) : o'.Grounded := by
  intro name r hr rule hrule side member hmember
  rw [hrelations] at hr
  exact hconcepts _ (h name r hr rule hrule side member hmember)

theorem viewed_refresh (o : Ontology) : o.refresh.Viewed := by
  refine forall_refreshed fun name r _ => ?_
  rw [refreshRelation_congr (shape_eq_of_declared (declared_refresh o)), refreshRelation_idem]

theorem counted_refresh (o : Ontology) : o.refresh.Counted := counted_recount _

/-- Counting memberships unsettles nothing. -/
theorem settled_recount (h : o.Settled) : o.recount.Settled := by
  have hget : ∀ n, o.recount.concepts.get? n =
      (o.concepts.get? n).map fun c => { c with memberships := o.membershipsOf c.name } := fun n =>
    Table.get?_mapValues _ _ n
  intro n
  refine SettledAt.congr ?_ (fun c _ p _ => ?_) (h n)
  · rw [hget, Option.map_map]
    rfl
  · rw [hget, Option.map_map]
    rfl

theorem settled_of_concepts_eq (hconcepts : o'.concepts = o.concepts) (h : o.Settled) :
    o'.Settled := by
  intro n
  exact SettledAt.congr (by rw [hconcepts]) (fun _ _ _ _ => by rw [hconcepts]) (h n)

theorem settled_refresh (h : o.Settled) : o.refresh.Settled :=
  settled_recount (settled_of_concepts_eq rfl h)

/-- Bringing up to date what depends on a concept declares nothing. -/
theorem declared_propagate (o : Ontology) (name : String) :
    (o.propagate name).declared = o.declared := by
  rw [propagate, declared_refresh]
  exact cascade_keeps declared_inherit o name

theorem get?_relations_propagate (o : Ontology) (name n : String) :
    ((o.propagate name).relations.get? n).map Relation.declared =
      (o.relations.get? n).map Relation.declared := by
  have hrelations : (o.cascade name).relations = o.relations :=
    cascade_keeps relations_inherit o name
  rw [propagate, relations_refresh, Table.get?_mapValues, hrelations, Option.map_map]
  simp only [Function.comp_def, declared_refreshRelation]

/-! ## Rebuilding -/

/-- A walk down from every root meets every concept. -/
theorem Linked.settled_roots (ho : o.Linked) (h : o'.declared = o.declared) :
    let roots := o'.concepts.values.filter fun c => !c.parents.toList.any o'.hasConcept
    ((roots.map (·.name)).foldl cascade o').Settled ∧
      ((roots.map (·.name)).foldl cascade o').declared = o.declared ∧
      ((roots.map (·.name)).foldl cascade o').relations = o'.relations := by
  intro roots
  refine settled_foldl_cascade ho h (roots.map (·.name)) fun x hx c hc => ?_
  have hshape := shape_eq_of_declared h
  have ho' : o'.Linked := ho.congr hshape.symm
  obtain ⟨root, hfree, hexists, hpath⟩ := ho.exists_root
    (hasConcept_congr hshape x ▸ hasConcept_of_get? hc)
  obtain ⟨d, hd⟩ := hasConcept_iff.mp (hasConcept_congr hshape root ▸ hexists)
  -- a concept that has no parent in the one ontology has none in the other
  have hroot : root ∈ roots.map (·.name) := by
    refine List.mem_map.mpr ⟨d, List.mem_filter.mpr ⟨Table.mem_values_iff.mpr ⟨root, hd⟩, ?_⟩,
      ho'.names hd⟩
    rw [Bool.not_eq_true', List.any_eq_false]
    intro p hp hpexists
    have hchild := ho'.child_of_parent hpexists hd (KeySet.mem_toList_iff.mp hp)
    rw [child_congr hshape] at hchild
    exact hfree p hchild
  exact absurd hpath (hx root hroot)

/-- A kept ontology comes back from its declared parts. -/
theorem Kept.rebuild_eq (ho : o.Kept) (hdeclared : o'.declared = o.declared)
    (hrelations : ∀ n, (o'.relations.get? n).map Relation.declared =
      (o.relations.get? n).map Relation.declared) : o'.rebuild = o := by
  obtain ⟨hsettled, hsame, hkept⟩ := ho.linked.settled_roots hdeclared
  unfold rebuild
  dsimp only
  generalize (((o'.concepts.values.filter fun c => !c.parents.toList.any o'.hasConcept).map
    (·.name)).foldl cascade o') = settled at hsettled hsame hkept ⊢
  -- the views depend on the declared parts only, and were right before
  have hviews : settled.refresh.relations = o.relations := by
    refine Table.ext_get? fun n => ?_
    rw [relations_refresh, Table.get?_mapValues, hkept,
      refreshRelation_congr (shape_eq_of_declared hsame)]
    have hn := hrelations n
    cases hr : o.relations.get? n with
    | none =>
        rw [hr, Option.map_none, Option.map_eq_none_iff] at hn
        rw [hn]
        rfl
    | some r =>
        rw [hr, Option.map_some] at hn
        obtain ⟨r', hr', heq⟩ := Option.map_eq_some_iff.mp hn
        rw [hr', Option.map_some, ← refreshRelation_declared, heq, refreshRelation_declared,
          ho.viewed n r hr]
  -- there is one way only to settle the concepts, and the memberships follow the relations
  have hconcepts : settled.refresh.concepts = o.concepts := by
    refine Table.ext_get? fun n => ?_
    have hinherited : (settled.concepts.get? n).map Concept.inherited = _ :=
      inherited_unique (ho.linked.congr (shape_eq_of_declared hsame.symm)) hsame hsettled ho.settled
    rw [refresh, recount, Table.get?_mapValues]
    cases hc : o.concepts.get? n with
    | none => rw [none_of_shape_eq (shape_eq_of_declared hsame.symm) hc, Option.map_none]
    | some c =>
        obtain ⟨c', hc', heq⟩ := exists_of_declared_eq hsame.symm hc
        rw [hc, hc', Option.map_some, Option.map_some, Option.some.injEq] at hinherited
        rw [hc', Option.map_some, Option.some.injEq]
        refine Concept.eq_of_declared heq hinherited ?_
        rw [ho.counted n c hc, ← Concept.name_eq_of_shape (Concept.shape_eq_of_declared heq)]
        exact congrFun (membershipsOf_congr hviews) c'.name
  calc settled.refresh = ⟨settled.refresh.concepts, settled.refresh.relations⟩ := rfl
    _ = o := by rw [hconcepts, hviews]

/-- Computing anew what a kept ontology keeps gives it back. -/
theorem Kept.rebuild_eq_self (ho : o.Kept) : o.rebuild = o := ho.rebuild_eq rfl fun _ => rfl

/-- What is declared determines an ontology that is up to date. -/
theorem Kept.eq_of_declared (ho : o.Kept) (ho' : o'.Kept) (hdeclared : o.declared = o'.declared)
    (hrelations : ∀ n, (o.relations.get? n).map Relation.declared =
      (o'.relations.get? n).map Relation.declared) : o = o' := by
  rw [← ho.rebuild_eq_self]
  exact ho'.rebuild_eq hdeclared hrelations

end Ontology

end Credence
