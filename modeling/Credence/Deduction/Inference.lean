import Credence.Condition.Evaluation
import Credence.Confidence.Weighing
import Credence.Deduction.Memo
import Credence.World.Basic

/-!
# Inference

Whether a relation holds between two subjects is decided by its rules, each of which may have
conditions that ask about further relations.  A rule that is asked about a pair while it is being
evaluated on that very pair contributes nothing; any other answer is remembered.

So the evaluations that are under way at one time are all about different rules or pairs.  There are
no more of them than rules times pairs of subjects, and with that many nested inferences left,
`reasoner` never has to refuse one.

What is remembered is no business of the recursion: it goes on in any monad that can fail, and takes
the way in which questions are answered (a `Recall`), and the verdict that stands in for an
inference nested too deep, as arguments.
-/

namespace Credence

/-- A way of answering a question with a computation of the answer at hand; none if the rule is not
to contribute. -/
abbrev Recall (m : Type → Type) := Question → m Float → m (Option Float)

/-- A way of coming to a verdict on a relation between two values. -/
abbrev Inquiry (m : Type → Type) := Value → String → Value → Bool → m Finding

namespace World

/-- Answers a question from memory, or by a computation whose result is remembered; none if the
question is being answered already. -/
def remembered : Recall Deduction := fun q compute => do
  match (← get).get? q with
  | some (.done x) => return some x
  | some .running => return none
  | none =>
    -- the computation may come back to the question, so the mark comes before it
    modify fun memo => memo.insert q .running
    try
      let x ← compute
      modify fun memo => memo.insert q (.done x)
      pure (some x)
    catch e =>
      -- an error is no answer: whoever asks again computes again
      modify fun memo => memo.erase q
      throw e

section Recursion

variable {m : Type → Type} [Monad m] [MonadExceptOf Error m]
variable (w : World) (ask : Recall m)

/-- The strength of a rule on a pair. -/
def ruleStrength (r : Reasoner m) (rule : Rule) (domain target : Subject) : m Float := do
  let base := Scenario.ofQuery domain.toValue target.toValue
  let scenarios ← base.extend r.candidates rule.freeSlots
  Weighing.overScenarios
    (fun scenario =>
      Weighing.inScenario rule.confidence
        (fun c : Condition => do
          let v ← c.tree.evaluate r scenario
          return v.asConfidence)
        Condition.salience 0 rule.conditions)
    1 scenarios

/-- Collects what the rules of a relation say about a pair, in their order. -/
def collect (r : Reasoner m) (relation : String) (domain target : Subject) (conditions : Bool) :
    List (Rule × Nat) → Evidence Float → m (Evidence Float)
  | [], e => return e
  | (rule, place) :: rest, e =>
    if !rule.applies domain target || (!conditions && rule.isConditional) then
      collect r relation domain target conditions rest e
    else do
      match ← ask ⟨relation, place, domain, target⟩ (ruleStrength r rule domain target) with
      | some x => collect r relation domain target conditions rest (e.add x rule.supporting)
      -- the rule is being evaluated on this very pair
      | none => collect r relation domain target conditions rest e

/-- The verdict on a relation between two subjects, with or without conditional rules. -/
def inferSubjects (r : Reasoner m) (domain : Subject) (relation : String) (target : Subject)
    (conditions : Bool) : m Finding := do
  match w.ontology.relations.get? relation with
  | none => throw (.missing (.relation relation))
  | some rel =>
    MonadExcept.ofExcept (w.checkSubject domain)
    MonadExcept.ofExcept (w.checkSubject target)
    -- a static concept is asked about as its one instance from here on
    let domain := w.canonical domain
    let target := w.canonical target
    if rel.distinct ∧ domain = target then return .known 0
    if !rel.between domain.conceptName target.conceptName then return .known 0
    let e ← collect ask r relation domain target conditions rel.rules.zipIdx .none
    return e.conclude

/-- The verdict on a relation between what two values refer to. -/
def inferValues (r : Reasoner m) : Inquiry m := fun domain relation target conditions => do
  if !w.ontology.relations.contains relation then throw (.missing (.relation relation))
  match w.subject? domain, w.subject? target with
  | some d, some t => w.inferSubjects ask r d relation t conditions
  | _, _ => return .unknown

/-- The reasoner of a world with a given way of inferring. -/
def reasonerWith (infer : Inquiry m) : Reasoner m where
  infer := infer
  candidates s := MonadExcept.ofExcept (w.candidates s)
  property v key := return w.property v key
  method v name args := MonadExcept.ofExcept (w.method v name args)
  construct concept args := MonadExcept.ofExcept (w.construct concept args)

/-- The reasoner with a number of nested inferences left, and a verdict for those beyond. -/
def reasonerAt (beyond : Inquiry m) : Nat → Reasoner m
  | 0 => w.reasonerWith beyond
  | n + 1 => w.reasonerWith (w.inferValues ask (reasonerAt beyond n))

end Recursion

variable (w : World)

/-- The number of subjects there are. -/
def subjectCount : Nat := w.ontology.concepts.size + w.registry.size

/-- The number of evaluations of rules that can be under way at one time. -/
def depthBound : Nat := w.ontology.ruleCount * (w.subjectCount * w.subjectCount)

/-- The reasoner of a world. -/
def reasoner : Reasoner Deduction :=
  w.reasonerAt remembered (fun _ _ _ _ => return .unknown) (w.depthBound + 1)

/-- The verdict on a relation between two subjects. -/
def infer (domain : Subject) (relation : String) (target : Subject) (conditions : Bool) :
    Deduction Finding :=
  w.inferSubjects remembered w.reasoner domain relation target conditions

end World

end Credence
