import Credence.Ontology.Basic

/-!
# Membership

The views of groups and rules follow from their bases and the concepts there are.

* A group stands for its bases and everything below them.
* The domain of a rule stands for its concept bases and everything below them.
* So does the target of a rule with a condition that mentions the target; without such a condition
  it stands for its concept bases and everything above them.

Each concept counts the groups that it belongs to and the sides of rules that name it or an instance
of it, relation by relation.
-/

namespace Credence.Ontology

/-- Which way a view extends. -/
inductive Reach where
  | down
  | up
deriving DecidableEq, Repr

/-- The existing ones of some concepts, and everything below or above them. -/
def expand (o : Ontology) (reach : Reach) (bases : List String) : NameSet :=
  (bases.filter o.hasConcept).foldl
    (fun s b =>
      (s.union (match reach with
        | .down => o.descendants b
        | .up => o.ancestors b)).add b)
    ∅

/-- The way in which the target of a rule extends. -/
def targetReach (r : Rule) : Reach := if r.mentionsTarget then .down else .up

/-- Computes the views of a rule. -/
def refreshRule (o : Ontology) (r : Rule) : Rule :=
  { r with
    domains := { r.domains with view := o.expand .down r.domains.conceptBases }
    targets := { r.targets with view := o.expand (targetReach r) r.targets.conceptBases } }

def refreshGroup (o : Ontology) (g : Group) : Group :=
  { g with view := o.expand .down g.bases.toList }

def refreshRelation (o : Ontology) (r : Relation) : Relation :=
  { r with
    domains := r.domains.map o.refreshGroup
    targets := r.targets.map o.refreshGroup
    rules := r.rules.map o.refreshRule }

/-- How often a concept is a member of a relation: once for each group of a pair that stands for it,
and once for each side of a rule that names it or an instance of it. -/
def membershipCount (r : Relation) (concept : String) : Nat :=
  let groups := r.groups.flatMap fun g => [g.1, g.2]
  let sides := r.rules.flatMap fun rule => [rule.domains, rule.targets]
  groups.countP (fun g => g.view.has concept) + sides.countP fun m => m.names concept

/-- The relations that a concept is a member of, with the counts. -/
def membershipsOf (o : Ontology) (concept : String) : Table String Nat :=
  o.relations.values.foldl
    (fun t r =>
      match membershipCount r concept with
      | 0 => t
      | n => t.alter r.name fun m => m.getD 0 + n)
    ∅

/-- Counts the memberships of every concept anew. -/
def recount (o : Ontology) : Ontology :=
  { o with concepts := o.concepts.mapValues fun _ c =>
      { c with memberships := o.membershipsOf c.name } }

/-- Computes all views and memberships anew. -/
def refresh (o : Ontology) : Ontology :=
  recount { o with relations := o.relations.mapValues fun _ r => o.refreshRelation r }

end Credence.Ontology
