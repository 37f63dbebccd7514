import Credence.Proofs.Ontology.Memberships

/-!
# Refused changes

A change of an ontology either goes through or leaves everything as it was.  Nearly all changes look
at everything first and touch nothing before that, so this is read off the order of their steps.  A
refused change of a rule does touch the ontology: it counts all memberships anew.  That makes no
difference where they are counted already, as in every reachable ontology.
-/

namespace Credence.Ontology

variable {o o' : Ontology} {α β : Type}

/-- Whether a change, when it is refused, leaves an ontology as it is. -/
def Atomic (o : Ontology) (change : Change α) : Prop :=
  ∀ e o', exec change o = (.error e, o') → o' = o

/-! ## Looking first -/

/-- What goes through is not refused. -/
theorem Atomic.of_ok {change : Change α} {a : α} (h : exec change o = (.ok a, o')) :
    o.Atomic change := by
  intro e o'' hrefused
  rw [h] at hrefused
  cases hrefused

theorem atomic_throw (e : Error) : o.Atomic (throw e : Change α) := by
  intro e' o' h
  exact (congrArg Prod.snd h).symm

/-- A check may come first: it refuses, or the rest runs where it has looked. -/
theorem atomic_bind_check {x : Change α} {f : α → Change β} {check : Except Error α}
    (hx : exec x o = (check, o)) (hf : ∀ a, check = .ok a → o.Atomic (f a)) :
    o.Atomic (x >>= f) := by
  intro e o' h
  rw [exec_bind, hx] at h
  cases check with
  | error e => exact (congrArg Prod.snd h).symm
  | ok a => exact hf a rfl e o' h

theorem atomic_get {f : Ontology → Change α} (hf : o.Atomic (f o)) :
    o.Atomic (get >>= f) :=
  atomic_bind_check (exec_get o) fun o' h => by
    cases h
    exact hf

theorem atomic_theConcept {name : String} {f : Concept → Change α}
    (hf : ∀ c, o.concepts.get? name = some c → o.Atomic (f c)) :
    o.Atomic (theConcept name >>= f) := by
  intro e o' h
  rw [exec_bind, exec_theConcept] at h
  cases hc : o.concepts.get? name with
  | none =>
      rw [hc] at h
      exact (congrArg Prod.snd h).symm
  | some c =>
      rw [hc] at h
      exact hf c hc e o' h

theorem atomic_theRelation {name : String} {f : Relation → Change α}
    (hf : ∀ r, o.relations.get? name = some r → o.Atomic (f r)) :
    o.Atomic (theRelation name >>= f) := by
  intro e o' h
  rw [exec_bind, exec_theRelation] at h
  cases hr : o.relations.get? name with
  | none =>
      rw [hr] at h
      exact (congrArg Prod.snd h).symm
  | some r =>
      rw [hr] at h
      exact hf r hr e o' h

theorem atomic_violates_bind (v : Violation) (next : α → Change β) :
    o.Atomic (violates v >>= next) := by
  intro e o' h
  rw [exec_violates_bind] at h
  exact (congrArg Prod.snd h).symm

/-! ## Concepts -/

theorem atomic_addConcept (o : Ontology) (c : Concept) : o.Atomic (addConcept c) := by
  unfold addConcept
  refine atomic_get ?_
  dsimp only
  split
  · exact atomic_violates_bind _ _
  split
  · exact atomic_violates_bind _ _
  split
  · exact atomic_violates_bind _ _
  · exact .of_ok (exec_set o _)

theorem atomic_removeConcept (o : Ontology) (name : String) : o.Atomic (removeConcept name) := by
  refine atomic_theConcept fun c _ => atomic_get ?_
  dsimp only
  split
  · exact atomic_violates_bind _ _
  · exact .of_ok rfl

theorem atomic_addParent (o : Ontology) (child parent : String) :
    o.Atomic (addParent child parent) := by
  refine atomic_theConcept fun c _ => atomic_get ?_
  dsimp only
  split
  · exact atomic_violates_bind _ _
  · exact .of_ok rfl

theorem atomic_removeParent (o : Ontology) (child parent : String) :
    o.Atomic (removeParent child parent) :=
  atomic_theConcept fun _ _ => atomic_get (.of_ok rfl)

theorem atomic_addAlias (o : Ontology) (concept other : String) :
    o.Atomic (addAlias concept other) := by
  refine atomic_theConcept fun c _ => ?_
  dsimp only
  split <;> exact .of_ok rfl

theorem atomic_removeAlias (o : Ontology) (concept other : String) :
    o.Atomic (removeAlias concept other) := by
  refine atomic_theConcept fun c _ => ?_
  dsimp only
  split <;> exact .of_ok rfl

theorem atomic_setProperty (o : Ontology) (concept key : String) (value : Value) :
    o.Atomic (setProperty concept key value) := by
  unfold setProperty
  dsimp only
  split
  · exact atomic_violates_bind _ _
  · exact atomic_theConcept fun _ _ => .of_ok rfl

theorem atomic_removeProperty (o : Ontology) (concept key : String) :
    o.Atomic (removeProperty concept key) := by
  refine atomic_theConcept fun c _ => ?_
  dsimp only
  split <;> exact .of_ok rfl

/-! ## Relations and rules -/

theorem atomic_addRelation (o : Ontology) (r : Relation) : o.Atomic (addRelation r) := by
  unfold addRelation
  refine atomic_get ?_
  dsimp only
  split
  · exact atomic_violates_bind _ _
  · exact atomic_bind_check (exec_forM_ofExcept _ _ o) fun _ _ => .of_ok (exec_set o _)

theorem atomic_removeRelation (o : Ontology) (name : String) : o.Atomic (removeRelation name) :=
  atomic_theRelation fun _ _ => .of_ok rfl

theorem atomic_addRule (o : Ontology) (name : String) (rule : Rule) :
    o.Atomic (addRule name rule) :=
  atomic_theRelation fun _ _ => atomic_get
    (atomic_bind_check (exec_ofExcept _ o) fun _ _ => .of_ok (exec_set o _))

theorem atomic_removeRule (o : Ontology) (name : String) (id : RuleId) :
    o.Atomic (removeRule name id) := by
  refine atomic_theRelation fun r _ => ?_
  cases r.rule? id with
  | none => exact atomic_throw _
  | some rule => exact .of_ok rfl

/-- Where all memberships are counted, counting them anew changes nothing. -/
theorem Counted.recount_eq_self (h : o.Counted) : o.recount = o := by
  have hconcepts : o.recount.concepts = o.concepts := by
    refine Table.ext_get? fun name => ?_
    rw [recount, Table.get?_mapValues]
    cases hc : o.concepts.get? name with
    | none => rfl
    | some c => rw [Option.map_some, ← h name c hc]
  calc o.recount = ⟨o.recount.concepts, o.recount.relations⟩ := rfl
    _ = o := by rw [hconcepts]; rfl

/-- The one change that touches an ontology when it is refused. -/
theorem Counted.atomic_modifyRule (h : o.Counted) (name : String) (id : RuleId)
    (f : Rule → Except Error (α × Rule)) : o.Atomic (modifyRule name id f) := by
  refine atomic_theRelation fun r _ => ?_
  dsimp only
  split
  · exact .of_ok rfl
  · intro e o' hrefused
    have hcounted : o.recount = o' := congrArg Prod.snd hrefused
    rw [← hcounted, h.recount_eq_self]

theorem Counted.atomic_addRuleMember (h : o.Counted) (name : String) (id : RuleId) (side : Side)
    (member : Subject) : o.Atomic (addRuleMember name id side member) :=
  atomic_theRelation fun _ _ => atomic_get
    (atomic_bind_check (exec_ofExcept _ o) fun _ _ => h.atomic_modifyRule name id _)

theorem Counted.atomic_removeRuleMember (h : o.Counted) (name : String) (id : RuleId) (side : Side)
    (member : Subject) : o.Atomic (removeRuleMember name id side member) := by
  unfold removeRuleMember
  refine atomic_get ?_
  dsimp only
  split
  · exact atomic_throw _
  · exact h.atomic_modifyRule name id _

/-! ## All of them -/

/-- A change of concepts, relations or rules, by what it gives back. -/
inductive Edit : Type → Type where
  | addConcept (c : Concept) : Edit Unit
  | removeConcept (name : String) : Edit Concept
  | addParent (child parent : String) : Edit Bool
  | removeParent (child parent : String) : Edit Bool
  | addAlias (concept other : String) : Edit Bool
  | removeAlias (concept other : String) : Edit Bool
  | setProperty (concept key : String) (value : Value) : Edit Unit
  | removeProperty (concept key : String) : Edit (Option Value)
  | addRelation (r : Relation) : Edit Unit
  | removeRelation (name : String) : Edit Relation
  | addRule (relation : String) (rule : Rule) : Edit Unit
  | removeRule (relation : String) (id : RuleId) : Edit Rule
  | addCondition (relation : String) (id : RuleId) (c : Condition) : Edit Unit
  | removeCondition (relation : String) (id : RuleId) (index : Nat) : Edit Condition
  | addRuleMember (relation : String) (id : RuleId) (side : Side) (member : Subject) : Edit Bool
  | removeRuleMember (relation : String) (id : RuleId) (side : Side) (member : Subject) : Edit Bool

/-- What an edit does. -/
def Edit.change {α : Type} : Edit α → Change α
  | addConcept c => Ontology.addConcept c
  | removeConcept name => Ontology.removeConcept name
  | addParent child parent => Ontology.addParent child parent
  | removeParent child parent => Ontology.removeParent child parent
  | addAlias concept other => Ontology.addAlias concept other
  | removeAlias concept other => Ontology.removeAlias concept other
  | setProperty concept key value => Ontology.setProperty concept key value
  | removeProperty concept key => Ontology.removeProperty concept key
  | addRelation r => Ontology.addRelation r
  | removeRelation name => Ontology.removeRelation name
  | addRule relation rule => Ontology.addRule relation rule
  | removeRule relation id => Ontology.removeRule relation id
  | addCondition relation id c => Ontology.addCondition relation id c
  | removeCondition relation id index => Ontology.removeCondition relation id index
  | addRuleMember relation id side member => Ontology.addRuleMember relation id side member
  | removeRuleMember relation id side member => Ontology.removeRuleMember relation id side member

theorem Counted.atomic_edit (h : o.Counted) (edit : Edit α) : o.Atomic edit.change := by
  cases edit with
  | addConcept c => exact atomic_addConcept o c
  | removeConcept name => exact atomic_removeConcept o name
  | addParent child parent => exact atomic_addParent o child parent
  | removeParent child parent => exact atomic_removeParent o child parent
  | addAlias concept other => exact atomic_addAlias o concept other
  | removeAlias concept other => exact atomic_removeAlias o concept other
  | setProperty concept key value => exact atomic_setProperty o concept key value
  | removeProperty concept key => exact atomic_removeProperty o concept key
  | addRelation r => exact atomic_addRelation o r
  | removeRelation name => exact atomic_removeRelation o name
  | addRule relation rule => exact atomic_addRule o relation rule
  | removeRule relation id => exact atomic_removeRule o relation id
  | addCondition relation id c => exact h.atomic_modifyRule relation id _
  | removeCondition relation id index => exact h.atomic_modifyRule relation id _
  | addRuleMember relation id side member => exact h.atomic_addRuleMember relation id side member
  | removeRuleMember relation id side member =>
      exact h.atomic_removeRuleMember relation id side member

/-- A refused edit of a reachable ontology leaves it as it was. -/
theorem eq_of_refused {e : Error} (ho : o.Reachable) (edit : Edit α)
    (hrefused : exec edit.change o = (.error e, o')) : o' = o :=
  ho.kept.counted.atomic_edit edit e o' hrefused

/-- The rule on boats with cargo has no condition that could be removed. -/
theorem eq_of_refused_transport : ∃ e o',
    exec (Edit.removeCondition "carries" .nil 0).change transport = (.error e, o') ∧
      o' = transport := by
  have hrefused :
      (exec (Edit.removeCondition "carries" .nil 0).change transport).1.isOk = false := by
    decide +kernel
  generalize hrun : exec (Edit.removeCondition "carries" .nil 0).change transport = run at hrefused
  obtain ⟨outcome, o'⟩ := run
  cases outcome with
  | error e => exact ⟨e, o', rfl, eq_of_refused reachable_transport _ hrun⟩
  | ok c => cases hrefused

end Credence.Ontology
