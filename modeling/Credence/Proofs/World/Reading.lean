import Credence.Deduction.Memo
import Credence.World.Basic
import Credence.Proofs.Collection.Table

/-!
# What a world answers, and how it refuses

The subjects that reach a rule were looked up first: they exist, and a static concept has been
replaced by its instance.  `World.Knows` is that property, and `World.Poses` says the same of a
whole question.  The other half of the file goes through the errors of a look-up.  Only evaluation
speaks of slots, so none of the errors here is about an unfilled slot.
-/

namespace Credence

namespace World

variable (w : World)

/-! ## Subjects that exist -/

/-- A subject exists, and stands for itself. -/
structure Knows (s : Subject) : Prop where
  exists_ : w.checkSubject s = .ok ()
  canonical : w.canonical s = s

variable {w}

theorem checkSubject_concept {name : String} :
    w.checkSubject (.concept name) = .ok () ↔ w.ontology.hasConcept name = true := by
  unfold checkSubject
  by_cases h : w.ontology.hasConcept name = true <;> simp [h]

theorem checkSubject_inst {key : InstanceKey} :
    w.checkSubject (.inst key) = .ok () ↔ w.registry.contains key = true := by
  unfold checkSubject
  by_cases h : w.registry.contains key = true <;> simp [h]

/-- What a subject that exists stands for exists too. -/
theorem knows_canonical {s : Subject} (hs : w.checkSubject s = .ok ()) :
    w.Knows (w.canonical s) := by
  cases s with
  | inst key => exact ⟨hs, rfl⟩
  | concept name =>
      by_cases hname : w.registry.contains (.singleton name) = true
      · rw [show w.canonical (.concept name) = .inst (.singleton name) from if_pos hname]
        exact ⟨checkSubject_inst.mpr hname, rfl⟩
      · have hself : w.canonical (.concept name) = .concept name := if_neg hname
        rw [hself]
        exact ⟨hs, hself⟩

/-! ## Questions that may come up -/

variable (w) in
/-- A question is about a rule of the world and two subjects that the world knows. -/
structure Poses (q : Question) (rule : Rule) : Prop where
  rule : ((w.ontology.relations.get? q.relation).bind fun rel => rel.rules[q.rule]?) = some rule
  domain : w.Knows q.domain
  target : w.Knows q.target

theorem poses_of_mem_zipIdx {relation : String} {rel : Relation} {rule : Rule} {place : Nat}
    {domain target : Subject} (hrel : w.ontology.relations.get? relation = some rel)
    (hrule : (rule, place) ∈ rel.rules.zipIdx) (hdomain : w.Knows domain)
    (htarget : w.Knows target) : w.Poses ⟨relation, place, domain, target⟩ rule where
  rule := by
    rw [hrel]
    exact List.mk_mem_zipIdx_iff_getElem?.mp hrule
  domain := hdomain
  target := htarget

theorem Poses.unique {q : Question} {rule rule' : Rule} (hq : w.Poses q rule)
    (hq' : w.Poses q rule') : rule = rule' :=
  Option.some.inj (hq.rule.symm.trans hq'.rule)

/-! ## Errors of a look-up -/

/-- A result that is no error about an unfilled slot. -/
def Scoped {α : Type} (x : Except Error α) : Prop := ∀ s, x ≠ .error (.unbound s)

theorem scoped_ok {α : Type} (a : α) : Scoped (.ok a : Except Error α) :=
  fun _ h => nomatch h

theorem scoped_error {α : Type} {e : Error} (he : ∀ s, e ≠ .unbound s) :
    Scoped (.error e : Except Error α) :=
  fun s h => he s (Except.error.inj h)

theorem scoped_missing {α : Type} (reference : Reference) :
    Scoped (.error (.missing reference) : Except Error α) :=
  scoped_error fun _ h => nomatch h

theorem scoped_unsupported {α : Type} (u : Unsupported) :
    Scoped (.error (.unsupported u) : Except Error α) :=
  scoped_error fun _ h => nomatch h

theorem scoped_checkSubject (subject : Subject) : Scoped (w.checkSubject subject) := by
  cases subject with
  | concept name =>
      by_cases h : w.ontology.hasConcept name = true
      · rw [checkSubject_concept.mpr h]
        exact scoped_ok ()
      · rw [show w.checkSubject (.concept name) = .error (.missing (.concept name)) from if_neg h]
        exact scoped_missing _
  | inst key =>
      by_cases h : w.registry.contains key = true
      · rw [checkSubject_inst.mpr h]
        exact scoped_ok ()
      · rw [show w.checkSubject (.inst key) = .error (.missing (.inst key.toText)) from if_neg h]
        exact scoped_missing _

/-- The candidates of a parameter are there or its concept is missing; only for `%` and `@` there is
nothing to range over. -/
theorem scoped_candidates {s : Slot} (hs : s.isFree = true) : Scoped (w.candidates s) := by
  cases s with
  | domain => exact absurd hs Bool.false_ne_true
  | target => exact absurd hs Bool.false_ne_true
  | param concept tag =>
      unfold World.candidates World.instances
      by_cases h : w.ontology.hasConcept concept = true
      · simp only [Slot.concept?, if_pos h]
        exact scoped_ok _
      · simp only [Slot.concept?, if_neg h]
        exact scoped_missing _

theorem scoped_commonMethod (i : Instance) (name : String) (args : List Value) :
    Scoped (i.commonMethod name args) := by
  unfold Instance.commonMethod
  split
  · exact scoped_ok _
  · exact scoped_ok _
  · exact scoped_ok _
  · exact scoped_ok _
  · exact scoped_unsupported _

theorem scoped_dateMethod (d : Date) (name : String) (args : List Value) :
    Scoped (d.method name args) := by
  unfold Date.method
  dsimp only
  split
  all_goals first | exact scoped_ok _ | exact scoped_unsupported _

theorem scoped_factoryMethod (f : Factory) (i : Instance) (name : String) (args : List Value) :
    Scoped (f.method i name args) := by
  cases f with
  | default => exact scoped_commonMethod i name args
  | date =>
      unfold Factory.method
      dsimp only
      split
      · split
        · exact scoped_ok _
        · exact scoped_commonMethod i name args
      · exact scoped_commonMethod i name args
  | email =>
      unfold Factory.method
      dsimp only
      split
      · exact scoped_ok _
      · exact scoped_commonMethod i name args

theorem scoped_method (subject : Value) (name : String) (args : List Value) :
    Scoped (w.method subject name args) := by
  have hinst : ∀ key, Scoped (w.instanceMethod key name args) := by
    intro key
    unfold instanceMethod
    split
    · exact scoped_missing _
    · exact scoped_factoryMethod _ _ name args
  unfold World.method
  split
  · exact scoped_ok _
  · exact scoped_dateMethod _ name args
  all_goals first
    | exact scoped_unsupported _
    | (split
       · exact hinst _
       · exact scoped_unsupported _)

theorem scoped_construct (concept : String) (args : List Value) :
    Scoped (w.construct concept args) := by
  unfold World.construct
  split
  · rename_i c _
    cases hfactory : c.factory with
    | date => exact scoped_ok _
    | default => exact scoped_unsupported _
    | email => exact scoped_unsupported _
  · exact scoped_missing _

end World

end Credence
