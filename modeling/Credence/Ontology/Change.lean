import Credence.Ontology.Inheritance
import Credence.Ontology.Membership

/-!
# Changing an ontology

A change either succeeds or is refused with an error.  It checks everything before it touches
anything, and ends by bringing up to date what depends on the part that it touched: what concepts
inherit, the views of groups and rules, and the memberships.
-/

namespace Credence

/-- A change of an ontology, which may be refused. -/
abbrev Ontology.Change (α : Type) := ExceptT Error (StateM Ontology) α

namespace Ontology

/-- Refuses a change that would break a rule of the model. -/
def violates {α : Type} (v : Violation) : Change α := throw (.violation v)

/-- The concept of a name, or a refusal. -/
def theConcept (name : String) : Change Concept := do
  match (← get).concepts.get? name with
  | some c => return c
  | none => throw (.missing (.concept name))

/-- The relation of a name, or a refusal. -/
def theRelation (name : String) : Change Relation := do
  match (← get).relations.get? name with
  | some r => return r
  | none => throw (.missing (.relation name))

/-! ## Concepts -/

def modifyConcept (o : Ontology) (name : String) (f : Concept → Concept) : Ontology :=
  { o with concepts := o.concepts.modify name f }

/-- Brings up to date what depends on a concept. -/
def propagate (o : Ontology) (name : String) : Ontology := (o.cascade name).refresh

/-- A concept with the edges that existing concepts have declared to it. -/
def fused (o : Ontology) (c : Concept) : Concept :=
  let others := o.concepts.values
  let below := others.filter fun d => d.parents.has c.name
  let above := others.filter fun d => d.children.has c.name
  { c with
    children := c.children.addAll (below.map (·.name))
    parents := c.parents.addAll (above.map (·.name)) }

/-- Whether a new concept would be its own ancestor. -/
def closesCycle (o : Ontology) (c : Concept) : Bool :=
  let parents := c.parents.toList.filter o.hasConcept
  let above := parents.foldl (fun s p => (s.add p).union (o.ancestors p)) (∅ : NameSet)
  c.parents.has c.name || c.children.has c.name || c.children.toList.any fun d => above.has d

/-- Declares the edges of a concept at their other ends. -/
def link (o : Ontology) (c : Concept) : Ontology :=
  let o := c.parents.toList.foldl
    (fun o p => o.modifyConcept p fun d => { d with children := d.children.add c.name }) o
  c.children.toList.foldl
    (fun o p => o.modifyConcept p fun d => { d with parents := d.parents.add c.name }) o

/-- Removes the edges of a concept at their other ends. -/
def unlink (o : Ontology) (name : String) (c : Concept) : Ontology :=
  let o := c.parents.toList.foldl
    (fun o p => o.modifyConcept p fun d => { d with children := d.children.remove name }) o
  c.children.toList.foldl
    (fun o p => o.modifyConcept p fun d => { d with parents := d.parents.remove name }) o

/-- Adds a concept.  Its name must be new, its properties must not be null, and it must not be its
own ancestor. -/
def addConcept (c : Concept) : Change Unit := do
  let o ← get
  if o.hasConcept c.name then violates (.conceptExists c.name)
  if let some (key, _) := c.ownProperties.entries.find? fun e => e.2.isNull then
    violates (.nullProperty key c.name)
  -- concepts may have named this one before it existed
  let c := o.fused c
  if o.closesCycle c then violates (.cycle c.name)
  let o := o.link c
  set ({ o with concepts := o.concepts.insert c.name c }.propagate c.name)

/-- Whether a relation or one of its rules names a concept or an instance of it. -/
def holds (r : Relation) (concept : String) : Bool :=
  r.declares concept || r.rules.any fun rule =>
    rule.domains.names concept || rule.targets.names concept

/-- Removes a concept that no relation names, and gives it back. -/
def removeConcept (name : String) : Change Concept := do
  let c ← theConcept name
  let o ← get
  let holders := ((o.relations.values.filter fun r => holds r name).map (·.name)).mergeSort
  if !holders.isEmpty then violates (.declaredMember name holders)
  let o := { o with concepts := o.concepts.erase name }
  let o := o.unlink name c
  -- only its children, and what lies below them, have lost a parent
  set (c.children.toList.foldl cascade o).refresh
  return c

/-- Adds an edge from a concept to a parent, which need not exist.  Tells whether it was new. -/
def addParent (child parent : String) : Change Bool := do
  let c ← theConcept child
  let o ← get
  if child = parent ∨ (o.descendants child).has parent then violates (.edgeCycle child parent)
  let new := !c.parents.has parent
  let o := o.modifyConcept child fun c => { c with parents := c.parents.add parent }
  -- a parent that does not exist learns of the child when it is added
  let o := o.modifyConcept parent fun p => { p with children := p.children.add child }
  set (if new then o.propagate child else o)
  return new

/-- Removes an edge from a concept to a parent.  Tells whether there was one. -/
def removeParent (child parent : String) : Change Bool := do
  let c ← theConcept child
  let o ← get
  let old := c.parents.has parent
  let o := o.modifyConcept child fun c => { c with parents := c.parents.remove parent }
  let o := o.modifyConcept parent fun p => { p with children := p.children.remove child }
  set (if old then o.propagate child else o)
  return old

/-- Adds an alias to a concept.  Tells whether it was new. -/
def addAlias (concept name : String) : Change Bool := do
  let c ← theConcept concept
  let new := !c.ownAliases.has name
  if new then
    modify fun o =>
      (o.modifyConcept concept fun c => { c with ownAliases := c.ownAliases.add name }).propagate
        concept
  return new

/-- Removes an alias that a concept declares itself.  Tells whether there was one. -/
def removeAlias (concept name : String) : Change Bool := do
  let c ← theConcept concept
  let old := c.ownAliases.has name
  if old then
    modify fun o =>
      (o.modifyConcept concept fun c => { c with ownAliases := c.ownAliases.remove name }).propagate
        concept
  return old

/-- Gives a concept a property, which must not be null. -/
def setProperty (concept key : String) (value : Value) : Change Unit := do
  if value.isNull then violates (.nullProperty key concept)
  let _ ← theConcept concept
  modify fun o =>
    (o.modifyConcept concept fun c =>
      { c with ownProperties := c.ownProperties.insert key value }).propagate concept

/-- Removes a property that a concept declares itself, and gives its value back. -/
def removeProperty (concept key : String) : Change (Option Value) := do
  let c ← theConcept concept
  let old := c.ownProperties.get? key
  if old.isSome then
    modify fun o =>
      (o.modifyConcept concept fun c =>
        { c with ownProperties := c.ownProperties.erase key }).propagate concept
  return old

def setFactory (concept : String) (factory : Factory) : Change Unit := do
  let _ ← theConcept concept
  modify fun o => o.modifyConcept concept fun c => { c with chosenFactory := some factory }

/-! ## Relations -/

/-- Refuses a base of a side of a rule whose concept does not exist or is in no group of the
relation. -/
def checkMember (o : Ontology) (r : Relation) (side : Side) (member : Subject) :
    Except Error Unit :=
  let groups := match side with
    | .domain => r.domains
    | .target => r.targets
  if !o.hasConcept member.conceptName then .error (.unsupported (.unresolvedMember side member))
  else if !(Relation.viewOf groups).has member.conceptName then
    .error (.violation (.outsideRelation side member r.name))
  else .ok ()

/-- Looks at every base of a rule, those of the domain first. -/
def checkRule (o : Ontology) (r : Relation) (rule : Rule) : Except Error Unit := do
  rule.domains.bases.toList.forM (o.checkMember r .domain)
  rule.targets.bases.toList.forM (o.checkMember r .target)

/-- Adds a relation.  Its name must be new and its rules must fit its groups. -/
def addRelation (r : Relation) : Change Unit := do
  let o ← get
  if o.relations.contains r.name then violates (.relationExists r.name)
  -- rules are checked against the views of the groups, so the views come first
  let r := o.refreshRelation r
  r.rules.forM fun rule => (MonadExcept.ofExcept (o.checkRule r rule) : Change Unit)
  set (recount { o with relations := o.relations.insert r.name r })

def removeRelation (name : String) : Change Relation := do
  let r ← theRelation name
  modify fun o => recount { o with relations := o.relations.erase name }
  return r

def modifyRelation (o : Ontology) (name : String) (f : Relation → Relation) : Ontology :=
  { o with relations := o.relations.modify name f }

/-- Adds a rule to a relation whose groups it must fit. -/
def addRule (relation : String) (rule : Rule) : Change Unit := do
  let r ← theRelation relation
  let o ← get
  MonadExcept.ofExcept (o.checkRule r rule)
  let rule := o.refreshRule rule
  set (o.modifyRelation relation fun r => r.insertRule rule).recount

def removeRule (relation : String) (id : RuleId) : Change Rule := do
  let r ← theRelation relation
  match r.rule? id with
  | none => throw (.missing (.rule relation id))
  | some rule =>
    modify fun o => (o.modifyRelation relation fun r => r.eraseRule id).recount
    return rule

/-- Changes a rule, unless the change is refused, and computes its views anew.  The memberships are
counted anew in any case. -/
def modifyRule {α : Type} (relation : String) (id : RuleId) (f : Rule → Except Error (α × Rule)) :
    Change α := do
  let r ← theRelation relation
  let result := match r.rule? id with
    | some rule => f rule
    | none => .error (.missing (.rule relation id))
  match result with
  | .ok (a, rule) =>
    modify fun o =>
      (o.modifyRelation relation fun r => r.modifyRule id fun _ => o.refreshRule rule).recount
    return a
  | .error e =>
    modify recount
    throw e

def addCondition (relation : String) (id : RuleId) (c : Condition) : Change Unit :=
  modifyRule relation id fun rule => .ok ((), rule.insertCondition c)

/-- Removes the condition at a place and gives it back. -/
def removeCondition (relation : String) (id : RuleId) (index : Nat) : Change Condition :=
  modifyRule relation id fun rule =>
    match rule.conditions[index]? with
    | some c => .ok (c, { rule with conditions := rule.conditions.eraseIdx index })
    | none => .error (.missing (.condition relation id index))

/-- Adds a base to a side of a rule.  Tells whether it was new. -/
def addRuleMember (relation : String) (id : RuleId) (side : Side) (member : Subject) :
    Change Bool := do
  let r ← theRelation relation
  MonadExcept.ofExcept ((← get).checkMember r side member)
  modifyRule relation id fun rule =>
    .ok (!(rule.members side).bases.has member,
      rule.modifyMembers side fun m => { m with bases := m.bases.add member })

/-- Removes a base from a side of a rule.  Tells whether there was one. -/
def removeRuleMember (relation : String) (id : RuleId) (side : Side) (member : Subject) :
    Change Bool := do
  if !(← get).hasConcept member.conceptName then throw (.unsupported (.neverResolved member))
  modifyRule relation id fun rule =>
    .ok ((rule.members side).bases.has member,
      rule.modifyMembers side fun m => { m with bases := m.bases.remove member })

/-! ## Computing everything anew -/

/-- Computes everything that is not declared: what concepts inherit, from those without existing
parents down, and then all views and memberships. -/
def rebuild (o : Ontology) : Ontology :=
  let roots := o.concepts.values.filter fun c => !c.parents.toList.any o.hasConcept
  ((roots.map (·.name)).foldl cascade o).refresh

end Ontology

end Credence
