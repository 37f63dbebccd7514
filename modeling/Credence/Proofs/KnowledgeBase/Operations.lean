import Credence.Proofs.Deduction.Trace
import Credence.Proofs.KnowledgeBase.Refusal

/-!
# Runs of a knowledge base

An `Operation` is anything that a knowledge base is asked to do from outside: change its ontology or
its instances, learn, or answer.  A run carries out operations one after the other, each on what the
last one left, whether that one failed or not.

What every operation preserves holds after every run (`after_of_preserves`); what an operation
preserves under a condition holds after the runs along which the condition does
(`after_of_along`).
-/

namespace Credence.KnowledgeBase

variable {α : Type} {kb : KnowledgeBase}

/-- What a knowledge base can be asked to do, by what it gives back. -/
inductive Operation : Type → Type 1 where
  | mutation {α : Type} (m : Mutation α) : Operation α
  /-- Computes anew what is not declared, as a change of the ontology. -/
  | recompute : Operation PUnit
  /-- Computes anew what is not declared, and brings the registry in line. -/
  | rebuild : Operation Unit
  | modifyProperty (key : InstanceKey) (property : String) (f : Properties → Properties) :
      Operation (Option Value)
  | mint : Operation RuleId
  | ingest (texts : List AnnotatedText) : Operation Report
  | infer (domain : Subject) (relation : String) (target : Subject) (conditions : Bool) :
      Operation Finding
  /-- Infers a relation between what two values refer to, with what is remembered. -/
  | inquire (domain : Value) (relation : String) (target : Value) (conditions : Bool) :
      Operation Finding
  | evaluate (e : Expr) (scenario : Scenario) : Operation Value
  | reset : Operation PUnit

/-- What an operation does. -/
def Operation.step : Operation α → Step α
  | mutation m => m.step
  | recompute => update (modify Ontology.rebuild)
  | rebuild => KnowledgeBase.rebuild
  | modifyProperty key property f => KnowledgeBase.modifyProperty key property f
  | mint => KnowledgeBase.mint
  | ingest texts => KnowledgeBase.ingest texts
  | infer domain relation target conditions =>
      KnowledgeBase.infer domain relation target conditions
  | inquire domain relation target conditions => deduce fun w =>
      w.inferValues World.remembered w.reasoner domain relation target conditions
  | evaluate e scenario => KnowledgeBase.evaluate e scenario
  | reset => modify KnowledgeBase.reset

/-- Operations to be carried out one after the other. -/
abbrev Agenda := List (Σ α : Type, Operation α)

/-- What operations leave of a knowledge base. -/
def after (kb : KnowledgeBase) : Agenda → KnowledgeBase
  | [] => kb
  | op :: rest => after (exec op.2.step kb).2 rest

/-- Each operation meets the knowledge base, at the moment when it is carried out, in a state that
goes with it. -/
def Along (Q : (Σ α : Type, Operation α) → KnowledgeBase → Prop) (kb : KnowledgeBase) :
    Agenda → Prop
  | [] => True
  | op :: rest => Q op kb ∧ Along Q (exec op.2.step kb).2 rest

instance decidableAlong {Q : (Σ α : Type, Operation α) → KnowledgeBase → Prop}
    [∀ op kb, Decidable (Q op kb)] (kb : KnowledgeBase) : (ops : Agenda) → Decidable (Along Q kb ops)
  | [] => inferInstanceAs (Decidable True)
  | op :: rest =>
    have := decidableAlong (Q := Q) (exec op.2.step kb).2 rest
    inferInstanceAs (Decidable (Q op kb ∧ Along Q (exec op.2.step kb).2 rest))

/-! ## Properties of runs -/

section Runs

variable {P : KnowledgeBase → Prop} {Q : (Σ α : Type, Operation α) → KnowledgeBase → Prop}

/-- What every operation preserves holds after every run. -/
theorem after_of_preserves (hstep : ∀ {α : Type} (op : Operation α), Preserves P op.step)
    (ops : Agenda) (h : P kb) : P (after kb ops) := by
  induction ops generalizing kb with
  | nil => exact h
  | cons op rest ih => exact ih (hstep op.2 kb h)

/-- What operations preserve under a condition holds after the runs along which the condition
does. -/
theorem after_of_along
    (hstep : ∀ op kb, P kb → Q op kb → P (exec op.2.step kb).2) {ops : Agenda}
    (hQ : Along Q kb ops) (h : P kb) : P (after kb ops) := by
  induction ops generalizing kb with
  | nil => exact h
  | cons op rest ih => exact ih hQ.2 (hstep op kb h hQ.1)

end Runs

/-! ## What single steps leave -/

/-- After a change of the ontology the registry has followed, and everything is forgotten. -/
theorem exec_update_snd (change : Ontology.Change α) (kb : KnowledgeBase) :
    (exec (update change) kb).2 = ({ kb with toWorld := (World.syncStatics
      { kb.toWorld with ontology := (exec change kb.ontology).2 }).2 } : KnowledgeBase).reset := by
  cases hchange : exec change kb.ontology with
  | mk outcome o =>
      cases hsync : World.syncStatics { kb.toWorld with ontology := o } with
      | mk synced w => rw [exec_update hchange hsync]

/-- Everything is computed anew and the registry follows. -/
theorem exec_rebuild (kb : KnowledgeBase) :
    exec rebuild kb = (kb.toWorld.rebuild.1,
      ({ kb with toWorld := kb.toWorld.rebuild.2 } : KnowledgeBase).reset) := by
  unfold rebuild
  rw [exec_bind_ok (exec_get kb)]
  change exec (do
    set ({ kb with toWorld := kb.toWorld.rebuild.2 } : KnowledgeBase).reset
    accept kb.toWorld.rebuild.1 : Step Unit) kb = _
  cases kb.toWorld.rebuild.1 <;> rfl

/-- Answering leaves the world alone. -/
theorem toWorld_deduce (d : World → Deduction α) (kb : KnowledgeBase) :
    (exec (deduce d) kb).2.toWorld = kb.toWorld := by
  rw [exec_deduce]

theorem memo_deduce (d : World → Deduction α) (kb : KnowledgeBase) :
    (exec (deduce d) kb).2.memo = (exec (d kb.toWorld) kb.memo).2 := by
  rw [exec_deduce]

theorem toWorld_infer (domain : Subject) (relation : String) (target : Subject)
    (conditions : Bool) (kb : KnowledgeBase) :
    (exec (KnowledgeBase.infer domain relation target conditions) kb).2.toWorld = kb.toWorld := by
  rw [infer_eq_trace]

/-- The instance changes, if there is one, and everything is forgotten. -/
theorem exec_modifyProperty (key : InstanceKey) (property : String) (f : Properties → Properties)
    (kb : KnowledgeBase) :
    (exec (modifyProperty key property f) kb).2 =
      match kb.registry.get? key with
      | none => kb.reset
      | some _ => { kb.reset with
          registry := kb.registry.modify key fun i => { i with properties := f i.properties } } := by
  unfold modifyProperty
  rw [exec_bind_ok (exec_modify _ _), exec_bind_ok (exec_get _)]
  dsimp only [reset]
  cases kb.registry.get? key <;> rfl

end Credence.KnowledgeBase
