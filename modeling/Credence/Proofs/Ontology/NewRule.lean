import Credence.Proofs.Ontology.Upkeep.Relations

/-!
# What a new rule changes

An ontology takes a rule between two instances if their concepts exist and its relation covers them.
The rule finds its place among the rules of the relation, and the memberships are counted anew.
Everything else, the *scheme* of the ontology, stays as it is.
-/

namespace Credence

namespace Relation

variable {r : Relation} {domain target : String}

theorem has_viewOf {gs : List Group} {g : Group} {name : String} (hg : g ∈ gs)
    (h : g.view.has name = true) : (viewOf gs).has name = true := by
  unfold viewOf
  rw [KeySet.has_foldl fun s g => by rw [KeySet.has_union, Bool.or_eq_true]]
  exact .inr ⟨g, hg, h⟩

/-- A relation that may hold between two concepts covers both. -/
theorem covers_of_between (h : r.between domain target = true) :
    (viewOf r.domains).has domain = true ∧ (viewOf r.targets).has target = true := by
  obtain ⟨g, hg, hboth⟩ := List.any_eq_true.mp h
  rw [Bool.and_eq_true] at hboth
  obtain ⟨hdomain, htarget⟩ := List.of_mem_zip hg
  exact ⟨has_viewOf hdomain hboth.1, has_viewOf htarget hboth.2⟩

/-- The rules that are there keep their order. -/
theorem sublist_insertRule (r : Relation) (rule : Rule) :
    r.rules.Sublist (r.insertRule rule).rules := by
  have hparts := List.take_append_drop
    (partitionPoint (fun s => rule.confidence ≤ s.confidence) r.rules) r.rules
  conv_lhs => rw [← hparts]
  exact (List.Sublist.refl _).append (List.sublist_cons_self _ _)

theorem perm_insertRule (r : Relation) (rule : Rule) :
    (r.insertRule rule).rules.Perm (rule :: r.rules) := by
  unfold insertRule insertWhere
  dsimp only
  refine List.perm_middle.trans (List.Perm.cons rule ?_)
  rw [List.take_append_drop]

end Relation

namespace Ontology

variable {o o' : Ontology} {r : Relation} {name : String} {rule : Rule}

/-- An ontology with one more rule. -/
def withRule (o : Ontology) (name : String) (rule : Rule) : Ontology :=
  (o.modifyRelation name fun r => r.insertRule (o.refreshRule rule)).recount

theorem exec_addRule (hr : o.relations.get? name = some r) (hcheck : o.checkRule r rule = .ok ()) :
    exec (addRule name rule) o = (.ok (), o.withRule name rule) := by
  unfold addRule
  rw [exec_bind, exec_theRelation, hr]
  dsimp only
  rw [exec_bind_ok (exec_get o), hcheck]
  rfl

/-- A rule between two instances passes if their concepts exist and the relation covers them. -/
theorem checkRule_simple {id : RuleId} {confidence : Float} {domain target : InstanceKey}
    {supporting : Bool} (hdomain : o.hasConcept domain.concept = true)
    (htarget : o.hasConcept target.concept = true)
    (hbetween : r.between domain.concept target.concept = true) :
    o.checkRule r (Rule.simple id confidence [.inst domain] [.inst target] supporting) =
      .ok () := by
  obtain ⟨hdomains, htargets⟩ := Relation.covers_of_between hbetween
  have hfirst : o.checkMember r .domain (.inst domain) = .ok () := by
    simp [checkMember, Subject.conceptName, hdomain, hdomains]
  have hsecond : o.checkMember r .target (.inst target) = .ok () := by
    simp [checkMember, Subject.conceptName, htarget, htargets]
  show (do
    o.checkMember r .domain (.inst domain) >>= fun _ => pure ()
    o.checkMember r .target (.inst target) >>= fun _ => pure ()) = _
  rw [hfirst, hsecond]
  rfl

theorem get?_relations_withRule (o : Ontology) (name : String) (rule : Rule) (n : String) :
    (o.withRule name rule).relations.get? n =
      if n = name then (o.relations.get? n).map fun r => r.insertRule (o.refreshRule rule)
      else o.relations.get? n :=
  Table.get?_modify _ _ _ _

theorem get?_concepts_withRule (o : Ontology) (name : String) (rule : Rule) (n : String) :
    (o.withRule name rule).concepts.get? n = (o.concepts.get? n).map fun c =>
      { c with memberships := membershipsOf (o.modifyRelation name fun r =>
          r.insertRule (o.refreshRule rule)) c.name } :=
  Table.get?_mapValues _ _ _

/-! ## The scheme -/

/-- An ontology without its rules, and without the memberships, which count them. -/
def scheme (o : Ontology) : Ontology where
  concepts := o.concepts.mapValues fun _ c => { c with memberships := ∅ }
  relations := o.relations.mapValues fun _ r => { r with rules := [] }

theorem get?_scheme_concepts (o : Ontology) (n : String) :
    o.scheme.concepts.get? n = (o.concepts.get? n).map fun c => { c with memberships := ∅ } :=
  Table.get?_mapValues _ _ _

theorem get?_scheme_relations (o : Ontology) (n : String) :
    o.scheme.relations.get? n = (o.relations.get? n).map fun r => { r with rules := [] } :=
  Table.get?_mapValues _ _ _

theorem scheme_withRule (o : Ontology) (name : String) (rule : Rule) :
    (o.withRule name rule).scheme = o.scheme := by
  have hconcepts : (o.withRule name rule).scheme.concepts = o.scheme.concepts := by
    refine Table.ext_get? fun n => ?_
    rw [get?_scheme_concepts, get?_scheme_concepts, get?_concepts_withRule, Option.map_map]
    rfl
  have hrelations : (o.withRule name rule).scheme.relations = o.scheme.relations := by
    refine Table.ext_get? fun n => ?_
    rw [get?_scheme_relations, get?_scheme_relations, get?_relations_withRule]
    split
    · rw [Option.map_map]
      rfl
    · rfl
  calc (o.withRule name rule).scheme =
      ⟨(o.withRule name rule).scheme.concepts, (o.withRule name rule).scheme.relations⟩ := rfl
    _ = o.scheme := by rw [hconcepts, hrelations]

/-- While the scheme stays, a concept changes in its memberships only. -/
theorem exists_concept_of_scheme (h : o'.scheme = o.scheme) {n : String} {c' : Concept}
    (hc' : o'.concepts.get? n = some c') :
    ∃ c memberships, o.concepts.get? n = some c ∧ c' = { c with memberships } := by
  have hget := congrArg (fun o => o.concepts.get? n) h
  rw [get?_scheme_concepts, get?_scheme_concepts, hc', Option.map_some] at hget
  obtain ⟨c, hc, hsame⟩ := Option.map_eq_some_iff.mp hget.symm
  exact ⟨c, c'.memberships, hc,
    congrArg (fun d : Concept => { d with memberships := c'.memberships }) hsame.symm⟩

/-- While the scheme stays, a relation changes in its rules only. -/
theorem exists_relation_of_scheme (h : o'.scheme = o.scheme) {n : String} {r' : Relation}
    (hr' : o'.relations.get? n = some r') :
    ∃ r rules, o.relations.get? n = some r ∧ r' = { r with rules } := by
  have hget := congrArg (fun o => o.relations.get? n) h
  rw [get?_scheme_relations, get?_scheme_relations, hr', Option.map_some] at hget
  obtain ⟨r, hr, hsame⟩ := Option.map_eq_some_iff.mp hget.symm
  exact ⟨r, r'.rules, hr, congrArg (fun s : Relation => { s with rules := r'.rules }) hsame.symm⟩

theorem hasConcept_of_scheme (h : o'.scheme = o.scheme) (n : String) :
    o'.hasConcept n = o.hasConcept n := by
  have hget := congrArg (fun o => (o.concepts.get? n).isSome) h
  simpa [get?_scheme_concepts, hasConcept, Table.contains] using hget

theorem category_of_scheme (h : o'.scheme = o.scheme) (n : String) :
    (o'.concepts.get? n).map Concept.category = (o.concepts.get? n).map Concept.category := by
  have hget := congrArg (fun o => (o.concepts.get? n).map Concept.category) h
  simpa [get?_scheme_concepts, Option.map_map, Function.comp_def] using hget

/-! ## The number of rules -/

theorem ruleCount_eq_sum (o : Ontology) :
    o.ruleCount = (o.relations.values.map fun r => r.rules.length).sum :=
  List.length_flatMap

/-- A new rule is one rule more. -/
theorem ruleCount_withRule (hr : o.relations.get? name = some r) (rule : Rule) :
    (o.withRule name rule).ruleCount = o.ruleCount + 1 := by
  have hsum := Table.sum_values_insert (fun r => r.rules.length) o.relations name
    (r.insertRule (o.refreshRule rule))
  have hrules := (r.perm_insertRule (o.refreshRule rule)).length_eq
  rw [hr, Option.map_some, Option.getD_some, hrules, List.length_cons] at hsum
  have hrelations : (o.withRule name rule).relations =
      o.relations.insert name (r.insertRule (o.refreshRule rule)) := by
    show o.relations.modify name _ = _
    unfold Table.modify
    rw [hr]
  rw [ruleCount_eq_sum, ruleCount_eq_sum, hrelations]
  omega

end Ontology

end Credence
