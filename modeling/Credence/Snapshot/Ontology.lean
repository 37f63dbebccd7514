import Credence.Ontology.Basic
import Credence.Snapshot.Value

/-!
# Concepts and relations in snapshots

Only what was declared is saved: neither what concepts inherit nor the views and memberships.
Conditions are saved as texts and read anew, factories by their names.

A rule in a snapshot may lack its identifier; it is then given a new one.
-/

namespace Credence

open Json

/-! ## Concepts -/

namespace Concept

def toJson (c : Concept) : Json :=
  .object ([("name", .text c.name), ("category", .text c.category.name),
    ("parents", c.parents.toJson), ("children", c.children.toJson),
    ("aliases", c.ownAliases.toJson), ("properties", c.ownProperties.toJson)]
    ++ (c.chosenFactory.map fun f => ("factory", Json.text f.name)).toList)

def fields : List (Draft.Field Concept) := [
  .needed "name" Draft.asText fun c s => { c with name := s },
  .needed "category" (Draft.asNamed Category.ofName?) fun c k => { c with category := k },
  .extra "parents" NameSet.decoder fun c ns => { c with parents := ns },
  .extra "children" NameSet.decoder fun c ns => { c with children := ns },
  .extra "aliases" NameSet.decoder fun c ns => { c with ownAliases := ns },
  .extra "properties" Properties.decoder fun c ps => { c with ownProperties := ps },
  .extra "factory" (Draft.asOptional (Draft.asMeant Factory.ofName?))
    fun c f => { c with chosenFactory := f }]

def decoder : Decoder Concept := Draft.asRecord fields { name := "", category := .abstract }

end Concept

/-! ## Rules -/

namespace Subject

def toJson : Subject → Json
  | concept name => .object [("concept", .text name)]
  | inst key => .object [("instance", key.toJson)]

def decoder : Decoder Subject :=
  Draft.asChoice fun
    | "concept" => some fun d => concept <$> d.asText
    | "instance" => some fun d => inst <$> InstanceKey.decoder d
    | _ => none

end Subject

namespace Members

def toJson (m : Members) : Json := .object [("bases", .list (m.bases.toList.map Subject.toJson))]

def decoder : Decoder Members :=
  Draft.asRecord
    [.needed "bases" (Draft.asList Subject.decoder)
      fun m bs => { m with bases := KeySet.ofList bs }]
    {}

end Members

namespace Condition

def toJson (c : Condition) : Json :=
  .object [("logic", .text c.logic), ("salience", .number c.salience)]

/-- Reads a condition, whose text must be well formed. -/
def decoder : Decoder Condition := fun d => do
  let (logic, salience) ← Draft.asRecord
    [.needed "logic" Draft.asText fun (_, x) s => (s, x),
      .needed "salience" Draft.asNumber fun (s, _) x => (s, x)]
    ("", (0 : Float)) d
  (compile logic salience).mapError fun _ => .unfit

end Condition

/-- A rule of a snapshot, which may lack an identifier. -/
structure SavedRule where
  id? : Option RuleId := none
  rule : Rule := { id := .nil, confidence := 0 }
deriving Inhabited

namespace SavedRule

def fields : List (Draft.Field SavedRule) := [
  .extra "id" (Draft.asMeant RuleId.read?) fun r id => { r with id? := some id },
  .needed "domains" Members.decoder fun r m => { r with rule := { r.rule with domains := m } },
  .needed "targets" Members.decoder fun r m => { r with rule := { r.rule with targets := m } },
  .needed "confidence" Draft.asNumber fun r x => { r with rule := { r.rule with confidence := x } },
  .needed "supporting" Draft.asBool fun r b => { r with rule := { r.rule with supporting := b } },
  .extra "conditions" (Draft.asList Condition.decoder)
    fun r cs => { r with rule := { r.rule with conditions := cs } }]

def decoder : Decoder SavedRule := Draft.asRecord fields {}

/-- A rule with its identifier, or with a new one. -/
def identified (r : SavedRule) : StateM Supply Rule := do
  match r.id? with
  | some id => return { r.rule with id }
  | none =>
    let s ← get
    set s.advance
    return { r.rule with id := s.next }

end SavedRule

def Rule.toJson (r : Rule) : Json :=
  .object [("id", .text r.id.toText), ("domains", r.domains.toJson), ("targets", r.targets.toJson),
    ("confidence", .number r.confidence), ("supporting", .bool r.supporting),
    ("conditions", .list (r.conditions.map Condition.toJson))]

/-! ## Relations -/

namespace Group

def toJson (g : Group) : Json := .object [("bases", g.bases.toJson)]

def decoder : Decoder Group :=
  Draft.asRecord [.needed "bases" NameSet.decoder fun g ns => { g with bases := ns }] {}

end Group

def Relation.toJson (r : Relation) : Json :=
  .object [("name", .text r.name), ("domains", .list (r.domains.map Group.toJson)),
    ("targets", .list (r.targets.map Group.toJson)), ("differ", .bool r.distinct),
    ("rules", .list (r.rules.map Rule.toJson))]

/-- A relation of a snapshot. -/
structure SavedRelation where
  relation : Relation := { name := "" }
  rules : List SavedRule := []
deriving Inhabited

namespace SavedRelation

def fields : List (Draft.Field SavedRelation) := [
  .needed "name" Draft.asText fun r s => { r with relation := { r.relation with name := s } },
  .needed "domains" (Draft.asList Group.decoder)
    fun r gs => { r with relation := { r.relation with domains := gs } },
  .needed "targets" (Draft.asList Group.decoder)
    fun r gs => { r with relation := { r.relation with targets := gs } },
  .extra "differ" Draft.asBool fun r b => { r with relation := { r.relation with distinct := b } },
  .extra "rules" (Draft.asList SavedRule.decoder) fun r rs => { r with rules := rs }]

def decoder : Decoder SavedRelation := Draft.asRecord fields {}

/-- A relation whose rules all have identifiers. -/
def identified (r : SavedRelation) : StateM Supply Relation := do
  let rules ← r.rules.mapM SavedRule.identified
  return { r.relation with rules }

end SavedRelation

/-! ## Ontologies -/

def Ontology.toJson (o : Ontology) : Json :=
  .object [("concepts", o.concepts.toJson Concept.toJson),
    ("relations", o.relations.toJson Relation.toJson)]

/-- An ontology of a snapshot. -/
structure SavedOntology where
  concepts : Table String Concept := ∅
  relations : Table String SavedRelation := ∅
deriving Inhabited

namespace SavedOntology

def decoder : Decoder SavedOntology :=
  Draft.asRecord
    [.needed "concepts" (Draft.asTable Concept.decoder) fun o cs => { o with concepts := cs },
      .needed "relations" (Draft.asTable SavedRelation.decoder)
        fun o rs => { o with relations := rs }]
    {}

/-- An ontology whose rules all have identifiers. -/
def identified (o : SavedOntology) : StateM Supply Ontology := do
  let relations ← o.relations.entries.mapM fun e => do return (e.1, ← e.2.identified)
  return { concepts := o.concepts, relations := Table.ofList relations }

end SavedOntology

end Credence
