import Credence.Proofs.Condition.Slots
import Credence.Proofs.Ontology.Memberships

/-!
# What a rule is about

A rule keeps the views of its two sides, and asks them whether it is about two subjects.  In an
ontology that is up to date the answer can be read off the bases: the domain has to be a base, or to
belong to a base concept or something below it, and so has the target if some condition of the rule
mentions the target.  If none does, the target may belong to something above a base concept instead.

The views leave out bases that do not exist; there are none, since a rule is let in with existing
bases only and no concept goes away that a rule still rests on (`Ontology.Grounded`).
-/

namespace Credence

namespace Members

variable {m : Members} {s : Subject}

theorem mem_conceptBases {b : String} :
    b ∈ m.conceptBases ↔ m.bases.has (.concept b) = true := by
  rw [conceptBases, List.mem_filterMap]
  constructor
  · rintro ⟨member, hmember, hname⟩
    cases member with
    | concept name =>
        rw [Option.some.injEq] at hname
        rw [← hname]
        exact KeySet.mem_toList_iff.mp hmember
    | inst key => nomatch hname
  · exact fun hb => ⟨.concept b, KeySet.mem_toList_iff.mpr hb, rfl⟩

/-- A subject is an instance and a base itself. -/
def IsInstanceBase (m : Members) (s : Subject) : Prop :=
  ∃ key, s = .inst key ∧ m.bases.has s = true

/-- A member is a base itself, as an instance, or its concept is in the view. -/
theorem has_iff : m.has s = true ↔ m.IsInstanceBase s ∨ m.view.has s.conceptName = true := by
  cases s with
  | concept name =>
      refine ⟨Or.inr, fun h => h.resolve_left ?_⟩
      rintro ⟨key, hkey, -⟩
      nomatch hkey
  | inst key =>
      rw [has, Bool.or_eq_true]
      exact or_congr_left ⟨fun h => ⟨key, rfl, h⟩, fun ⟨_, _, h⟩ => h⟩

end Members

namespace Ontology

variable {o : Ontology} {name : String} {r : Relation} {rule : Rule}

/-- The concept of a subject is a concept base of a side or lies below one. -/
def BelowBase (o : Ontology) (m : Members) (s : Subject) : Prop :=
  ∃ b, m.bases.has (.concept b) = true ∧ o.isA s.conceptName b = true

/-- The concept of a subject is a concept base of a side or lies above one. -/
def AboveBase (o : Ontology) (m : Members) (s : Subject) : Prop :=
  ∃ b, m.bases.has (.concept b) = true ∧ o.isA b s.conceptName = true

theorem mentionsTarget_rule_iff :
    rule.mentionsTarget = true ↔ ∃ c ∈ rule.conditions, c.tree.Mentions .target := by
  simp only [Rule.mentionsTarget, List.any_eq_true, Condition.mentionsTarget,
    Expr.mentionsTarget_iff]

/-- The concept bases of a grounded rule exist. -/
theorem Grounds.hasConcept (h : o.Grounds rule) (side : Side) {b : String}
    (hb : (rule.members side).bases.has (.concept b) = true) : o.hasConcept b = true :=
  h side (.concept b) hb

/-- What the domain of a current rule stands for. -/
theorem Linked.has_domainView (ho : o.Linked) (hrule : o.Current rule) (s : Subject) :
    rule.domains.view.has s.conceptName = true ↔ o.BelowBase rule.domains s := by
  obtain ⟨hviews, -, hgrounds⟩ := hrule
  have hview : o.expand .down rule.domains.conceptBases = rule.domains.view :=
    congrArg (fun rule => rule.domains.view) hviews
  rw [← hview, ho.has_expand_down]
  simp only [Members.mem_conceptBases]
  exact exists_congr fun b => and_congr_right fun hb =>
    and_iff_right (hgrounds.hasConcept .domain hb)

/-- What the target of a current rule stands for. -/
theorem Linked.has_targetView (ho : o.Linked) (hrule : o.Current rule) (s : Subject) :
    rule.targets.view.has s.conceptName = true ↔
      if rule.mentionsTarget = true then o.BelowBase rule.targets s
      else o.AboveBase rule.targets s := by
  obtain ⟨hviews, -, hgrounds⟩ := hrule
  have hview : o.expand (targetReach rule) rule.targets.conceptBases = rule.targets.view :=
    congrArg (fun rule => rule.targets.view) hviews
  rw [← hview, targetReach]
  by_cases hmentions : rule.mentionsTarget = true
  · rw [if_pos hmentions, if_pos hmentions, ho.has_expand_down]
    simp only [Members.mem_conceptBases]
    exact exists_congr fun b => and_congr_right fun hb =>
      and_iff_right (hgrounds.hasConcept .target hb)
  · rw [if_neg hmentions, if_neg hmentions, has_expand_up]
    simp only [Members.mem_conceptBases]
    exact exists_congr fun b => and_congr_right fun hb =>
      and_iff_right (hgrounds.hasConcept .target hb)

/-- In an ontology that changes have led to, every base of a rule is an existing concept or an
instance of one, and a rule is about two subjects exactly if

* the domain is an instance among the bases of that side, or its concept is a concept base of it or
  lies below one, and
* the target is an instance among the bases of that side, or its concept is a concept base of it or
  lies, if some condition mentions the target, below one, and if none does, above one. -/
theorem applies_exact (h : o.Reachable) (hr : o.relations.get? name = some r)
    (hrule : rule ∈ r.rules) :
    (∀ side member, (rule.members side).bases.has member = true →
      o.hasConcept member.conceptName = true) ∧
    ∀ d t : Subject, rule.applies d t = true ↔
      (rule.domains.IsInstanceBase d ∨ o.BelowBase rule.domains d) ∧
      (rule.targets.IsInstanceBase t ∨
        ((∃ c ∈ rule.conditions, c.tree.Mentions .target) ∧ o.BelowBase rule.targets t) ∨
        ((∀ c ∈ rule.conditions, ¬ c.tree.Mentions .target) ∧ o.AboveBase rule.targets t)) := by
  have ho := h.kept
  have hcurrent := ho.current hr hrule
  refine ⟨hcurrent.2.2, fun d t => ?_⟩
  rw [Rule.applies, Bool.and_eq_true, Members.has_iff, Members.has_iff,
    ho.linked.has_domainView hcurrent, ho.linked.has_targetView hcurrent]
  refine and_congr_right fun _ => or_congr_right ?_
  by_cases hmentions : ∃ c ∈ rule.conditions, c.tree.Mentions .target
  · rw [if_pos (mentionsTarget_rule_iff.mpr hmentions)]
    obtain ⟨c, hc, hmention⟩ := hmentions
    exact ⟨fun hbelow => Or.inl ⟨⟨c, hc, hmention⟩, hbelow⟩,
      fun hor => hor.elim (·.2) fun hnone => absurd hmention (hnone.1 c hc)⟩
  · rw [if_neg (mt mentionsTarget_rule_iff.mp hmentions)]
    refine ⟨fun habove => Or.inr ⟨fun c hc hmention => hmentions ⟨c, hc, hmention⟩, habove⟩,
      fun hor => hor.elim (fun hsome => absurd hsome.1 hmentions) (·.2)⟩

/-- Grain is cargo, and whether a boat carries it depends, by a condition, on what is carried: the
condition mentions the target, inside of a count. -/
def freight : Ontology :=
  let grain : Concept :=
    { name := "Grain", category := .dynamic, parents := KeySet.ofList ["Cargo"] }
  let o := (exec (addConcept grain) transport).2
  match Condition.compile "count(#Car, @.owner)" 1 with
  | .ok c => (exec (addCondition "carries" .nil c) o).2
  | .error _ => o

theorem reachable_freight : freight.Reachable := by
  unfold freight
  split
  · rename_i c hc
    exact (reachable_transport.addConcept _).addCondition _ _ (Condition.compile_self hc)
  · exact reachable_transport.addConcept _

/-- The rule is about one boat, and not about boats as such, and with the condition it is about
everything below cargo. -/
theorem applies_freight : ∃ r rule,
    freight.relations.get? "carries" = some r ∧ rule ∈ r.rules ∧
      rule.applies (.inst ⟨"Boat", "Argo"⟩) (.concept "Grain") = true ∧
      rule.applies (.concept "Boat") (.concept "Grain") = false := by
  -- everything about this ontology at once, so that it is computed once
  obtain ⟨hcarries, hisA, hrules⟩ :
      freight.relations.contains "carries" = true ∧ freight.isA "Grain" "Cargo" = true ∧
      ((freight.relations.get? "carries").map fun r =>
        r.rules.map fun rule => (rule.domains.bases, rule.targets.bases, rule.mentionsTarget)) =
          some [(KeySet.ofList [.inst ⟨"Boat", "Argo"⟩], KeySet.ofList [.concept "Cargo"], true)] := by
    decide +kernel
  obtain ⟨r, hr⟩ := Table.contains_iff.mp hcarries
  rw [hr, Option.map_some, Option.some.injEq, List.map_eq_singleton_iff] at hrules
  obtain ⟨rule, hrule, hsides⟩ := hrules
  obtain ⟨hdomains, htargets, hmentions⟩ : _ ∧ _ ∧ _ := by simpa only [Prod.mk.injEq] using hsides
  have hmem : rule ∈ r.rules := hrule ▸ List.mem_singleton.mpr rfl
  obtain ⟨-, happlies⟩ := applies_exact reachable_freight hr hmem
  refine ⟨r, rule, hr, hmem, (happlies _ _).mpr ⟨Or.inl ⟨_, rfl, ?_⟩, Or.inr (Or.inl
    ⟨mentionsTarget_rule_iff.mp hmentions, "Cargo", ?_, hisA⟩)⟩, Bool.eq_false_iff.mpr fun h => ?_⟩
  · rw [hdomains, KeySet.has_ofList]
    rfl
  · rw [htargets, KeySet.has_ofList]
    rfl
  · obtain ⟨⟨key, hkey, -⟩ | ⟨b, hb, -⟩, -⟩ := (happlies _ _).mp h
    · cases hkey
    · rw [hdomains, KeySet.has_ofList, decide_eq_true_eq, List.mem_singleton] at hb
      cases hb

end Ontology

end Credence
