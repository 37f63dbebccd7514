import Credence.Proofs.Deduction.Balance
import Credence.Proofs.KnowledgeBase.Operations
import Mathlib.Logic.Relation

/-!
# What is remembered of an earlier world

A memory is worth something on the world that it was learnt on.  So an operation that changes the
world forgets everything, also when it fails, with one exception: a factory that is chosen for a
static concept and refuses its name takes the instance of the concept away, and the failure comes
before anything is forgotten (`Operation.strands`).

In a run without that, whatever is remembered was learnt by deductions on the present world.  In any
run, no deduction leaves a question under way, which would silence a rule in later ones.
-/

namespace Credence.KnowledgeBase

variable {α : Type} {kb kb' : KnowledgeBase}

/-- Nothing that matters to deductions has changed, or everything is forgotten. -/
def Retains (kb kb' : KnowledgeBase) : Prop :=
  (kb'.toWorld = kb.toWorld ∧ kb'.memo = kb.memo) ∨ kb'.memo = ∅

theorem Retains.memo_eq_empty (h : Retains kb kb') (hchanged : kb'.toWorld ≠ kb.toWorld) :
    kb'.memo = ∅ :=
  h.resolve_left fun hsame => hchanged hsame.1

/-! ## The operations -/

/-- An operation that leaves a static concept without its instance: the factory that is chosen
refuses the name. -/
def Operation.strands (op : Operation α) (kb : KnowledgeBase) : Bool :=
  match op with
  | .mutation (.setFactory concept factory) => (kb.concept? concept).any fun c =>
      c.category = .static && !(factory.create concept concept c.seed).isOk
  | _ => false

theorem retains_update (change : Ontology.Change α) (kb : KnowledgeBase) :
    Retains kb (exec (update change) kb).2 := by
  rw [exec_update_snd]
  exact Or.inr rfl

/-- Learning and new instances forget, unless they change nothing. -/
theorem teachable_retains (kb : KnowledgeBase) : Teachable (Retains kb) where
  replace _ _ _ := Or.inr rfl
  mint _ h := h
  rule relation rule _ kb' _ := by
    rw [exec_update_snd]
    exact Or.inr rfl
  reset := preserves_modify fun _ _ => Or.inr rfl

theorem retains_refl (kb : KnowledgeBase) : Retains kb kb := Or.inl ⟨rfl, rfl⟩

theorem retains_modifyProperty (key : InstanceKey) (property : String)
    (f : Properties → Properties) (kb : KnowledgeBase) :
    Retains kb (exec (modifyProperty key property f) kb).2 := by
  rw [exec_modifyProperty]
  split <;> exact Or.inr rfl

/-- A factory that takes the name of its concept, or of any concept that is not static. -/
theorem retains_setFactory {concept : String} {factory : Factory}
    (h : (Operation.mutation (.setFactory concept factory)).strands kb = false) :
    Retains kb (exec (setFactory concept factory) kb).2 := by
  change (kb.concept? concept).any _ = false at h
  rw [exec_setFactory]
  cases hc : kb.concept? concept with
  | none => exact retains_refl kb
  | some c =>
      rw [hc, Option.any_some] at h
      dsimp only
      split
      · rename_i hstatic
        cases hi : factory.create concept concept c.seed with
        | error e =>
            rw [decide_eq_true hstatic, hi] at h
            nomatch h
        | ok i => exact Or.inr rfl
      · exact Or.inr rfl

/-- A factory that refuses the name of a static concept. -/
theorem memo_of_strands {op : Operation α} (h : op.strands kb = true) :
    (exec op.step kb).2.memo = kb.memo := by
  cases op with
  | mutation m =>
      cases m with
      | setFactory concept factory =>
          change (kb.concept? concept).any _ = true at h
          show (exec (setFactory concept factory) kb).2.memo = kb.memo
          rw [exec_setFactory]
          cases hc : kb.concept? concept with
          | none => rfl
          | some c =>
              rw [hc, Option.any_some, Bool.and_eq_true, decide_eq_true_eq] at h
              dsimp only
              rw [if_pos h.1]
              cases hi : factory.create concept concept c.seed with
              | error e => rfl
              | ok i =>
                  rw [hi] at h
                  nomatch h.2
      | edit change => nomatch h
      | importBundle name => nomatch h
      | addInstance i => nomatch h
      | createInstance concept name? properties => nomatch h
  | _ => nomatch h

/-- What mutations leave, if they strand no concept. -/
theorem retains_mutation {m : Mutation α} (h : (Operation.mutation m).strands kb = false) :
    Retains kb (exec m.step kb).2 := by
  cases m with
  | edit change => exact retains_update change.change kb
  | importBundle name => exact retains_update (Ontology.importBundle name) kb
  | setFactory concept factory => exact retains_setFactory h
  | addInstance i => exact (teachable_retains kb).addInstance i kb (retains_refl kb)
  | createInstance concept name? properties =>
      exact (teachable_retains kb).createInstance concept name? properties kb (retains_refl kb)

/-! ## Memories of the present world -/

/-- What one deduction on a world makes of a memory. -/
inductive Deduces (w : World) (memo : Memo) : Memo → Prop where
  | infer (domain : Subject) (relation : String) (target : Subject) (conditions : Bool) :
      Deduces w memo (exec (w.infer domain relation target conditions) memo).2
  | inquire (domain : Value) (relation : String) (target : Value) (conditions : Bool) :
      Deduces w memo
        (exec (w.inferValues World.remembered w.reasoner domain relation target conditions) memo).2
  | evaluate (e : Expr) (scenario : Scenario) :
      Deduces w memo (exec (e.evaluate w.reasoner scenario) memo).2

/-- The memories that deductions on a world lead to. -/
def LearntOn (w : World) (memo : Memo) : Prop := Relation.ReflTransGen (Deduces w) ∅ memo

/-- An operation that strands no concept retains what is known or forgets it, or it is a deduction on
the world as it is. -/
theorem retains_or_deduces {op : Operation α} (hop : op.strands kb = false) :
    Retains kb (exec op.step kb).2 ∨
      (exec op.step kb).2.toWorld = kb.toWorld ∧ ∃ memo, (memo = kb.memo ∨ memo = ∅) ∧
        Deduces kb.toWorld memo (exec op.step kb).2.memo := by
  cases op with
  | mutation m => exact Or.inl (retains_mutation hop)
  | recompute => exact Or.inl (retains_update (modify Ontology.rebuild) kb)
  | rebuild =>
      refine Or.inl (Or.inr ?_)
      show (exec KnowledgeBase.rebuild kb).2.memo = ∅
      rw [exec_rebuild]
      rfl
  | modifyProperty key property f => exact Or.inl (retains_modifyProperty key property f kb)
  | mint => exact Or.inl (retains_refl kb)
  | ingest texts => exact Or.inl ((teachable_retains kb).ingest texts kb (retains_refl kb))
  | infer domain relation target conditions =>
      refine Or.inr ⟨toWorld_infer domain relation target conditions kb, ∅, Or.inr rfl, ?_⟩
      show Deduces _ _ (exec (KnowledgeBase.infer domain relation target conditions) kb).2.memo
      unfold KnowledgeBase.infer
      rw [exec_bind_ok (exec_modify _ _), exec_deduce]
      exact .infer domain relation target conditions
  | inquire domain relation target conditions =>
      rw [Operation.step]
      refine Or.inr ⟨toWorld_deduce _ kb, kb.memo, Or.inl rfl, ?_⟩
      rw [memo_deduce]
      exact .inquire domain relation target conditions
  | evaluate e scenario =>
      rw [Operation.step, KnowledgeBase.evaluate]
      refine Or.inr ⟨toWorld_deduce _ kb, kb.memo, Or.inl rfl, ?_⟩
      rw [memo_deduce]
      exact .evaluate e scenario
  | reset => exact Or.inl (Or.inr rfl)

/-- An operation that strands no concept leaves a memory of the world that it leaves. -/
theorem learntOn_step {op : Operation α} (h : LearntOn kb.toWorld kb.memo)
    (hop : op.strands kb = false) :
    LearntOn (exec op.step kb).2.toWorld (exec op.step kb).2.memo := by
  rcases retains_or_deduces hop with (⟨hworld, hmemo⟩ | hempty) | ⟨hworld, memo, hmemo, hdeduces⟩
  · rw [hworld, hmemo]
    exact h
  · rw [hempty]
    exact .refl
  · rw [hworld]
    rcases hmemo with rfl | rfl
    · exact h.tail hdeduces
    · exact .single hdeduces

/-- An operation that changes the world forgets everything, whether it fails or not, unless it
strands a concept; then it forgets nothing.  In a run that never strands a concept, what is
remembered at the end was learnt on the world at the end. -/
theorem forgets_unless_stranding (op : Operation α) (kb : KnowledgeBase) (supply : Supply)
    (ops : Agenda) :
    (op.strands kb = true → (exec op.step kb).2.memo = kb.memo) ∧
      (op.strands kb = false → (exec op.step kb).2.toWorld ≠ kb.toWorld →
        (exec op.step kb).2.memo = ∅) ∧
      (Along (fun op kb => op.2.strands kb = false) { supply } ops →
        LearntOn (after { supply } ops).toWorld (after { supply } ops).memo) := by
  refine ⟨memo_of_strands, fun hop hchanged => ?_, fun hops => ?_⟩
  · rcases retains_or_deduces hop with hretains | ⟨hsame, -⟩
    · exact hretains.memo_eq_empty hchanged
    · exact absurd hsame hchanged
  · exact after_of_along (P := fun kb => LearntOn kb.toWorld kb.memo)
      (fun _ _ h hop => learntOn_step h hop) hops .refl

/-- A moth circles as long as there is a lamp, and that it does is remembered. -/
def attended : Agenda := [
  ⟨_, .mutation (.edit (.addConcept { name := "Lamp", category := .static }))⟩,
  ⟨_, .mutation (.edit (.addConcept { name := "Moth", category := .dynamic }))⟩,
  ⟨_, .mutation (.createInstance "Moth" (some "m") ∅)⟩,
  ⟨_, .mutation (.edit (.addRelation {
    name := "circles"
    domains := [{ bases := KeySet.ofList ["Moth"] }]
    targets := [{ bases := KeySet.ofList ["Moth"] }] }))⟩,
  ⟨_, .mutation (.edit (.addRule "circles" {
    id := .nil
    domains := { bases := KeySet.ofList [.concept "Moth"] }
    targets := { bases := KeySet.ofList [.concept "Moth"] }
    confidence := 1
    conditions := [⟨"count(#Lamp) > 0", 1,
      .binary .gt (.builtin .count [.slot (.param "Lamp" none)]) (.number 0)⟩] }))⟩,
  ⟨_, .evaluate (.relation "circles" (.slot .domain) (.slot .target) false)
    (.ofQuery (.inst ⟨"Moth", "m"⟩) (.inst ⟨"Moth", "m"⟩))⟩]

/-- What is remembered survives a factory that refuses the name of the lamp, which is gone then.  It
does not survive another moth. -/
theorem forgets_unless_stranding_attended :
    let kb := after { supply := ⟨0, 0⟩ } attended
    let darken : Operation Unit := .mutation (.setFactory "Lamp" .date)
    let hatch : Operation InstanceKey := .mutation (.createInstance "Moth" (some "n") ∅)
    (kb.memo ≠ ∅ ∧ LearntOn kb.toWorld kb.memo) ∧
      (darken.strands kb = true ∧ (exec darken.step kb).2.toWorld ≠ kb.toWorld ∧
        (exec darken.step kb).2.memo = kb.memo) ∧
      hatch.strands kb = false ∧ (exec hatch.step kb).2.toWorld ≠ kb.toWorld ∧
        (exec hatch.step kb).2.memo = ∅ := by
  intro kb darken hatch
  have hops : Along (fun op kb => op.2.strands kb = false) { supply := ⟨0, 0⟩ } attended := by
    decide +kernel
  have hmemo : kb.memo.isEmpty = false := by decide +kernel
  have hdarken : darken.strands kb = true := by decide +kernel
  have hhatch : hatch.strands kb = false := by decide +kernel
  have hlamp : kb.registry.contains (.singleton "Lamp") = true ∧
      (exec darken.step kb).2.registry.contains (.singleton "Lamp") = false := by
    decide +kernel
  have hmoth : kb.registry.contains ⟨"Moth", "n"⟩ = false ∧
      (exec hatch.step kb).2.registry.contains ⟨"Moth", "n"⟩ = true := by
    decide +kernel
  have hchanged : (exec hatch.step kb).2.toWorld ≠ kb.toWorld := fun hsame => by
    rw [hsame, hmoth.1] at hmoth
    nomatch hmoth.2
  obtain ⟨hdarkened, -, hlearnt⟩ := forgets_unless_stranding darken kb ⟨0, 0⟩ attended
  obtain ⟨-, hhatched, -⟩ := forgets_unless_stranding hatch kb ⟨0, 0⟩ attended
  refine ⟨⟨fun hempty => ?_, hlearnt hops⟩, ⟨hdarken, fun hsame => ?_, hdarkened hdarken⟩, hhatch,
    hchanged, hhatched hhatch hchanged⟩
  · rw [hempty] at hmemo
    nomatch hmemo
  · rw [hsame, hlamp.1] at hlamp
    nomatch hlamp.2

/-! ## Nothing stays under way -/

theorem Deduces.balanced {w : World} {before after : Memo} (h : Deduces w before after) :
    Balanced before after := by
  cases h with
  | infer domain relation target conditions =>
      exact w.balanced_inferSubjects _ before domain relation target conditions
  | inquire domain relation target conditions =>
      exact w.balanced_inferValues _ before domain relation target conditions
  | evaluate e scenario => exact w.balanced_evaluate _ before e scenario

theorem idle_step (op : Operation α) (kb : KnowledgeBase) (h : Idle kb.memo) :
    Idle (exec op.step kb).2.memo := by
  by_cases hop : op.strands kb = true
  · rw [memo_of_strands hop]
    exact h
  rcases retains_or_deduces (Bool.eq_false_iff.mpr hop) with
    (⟨-, hmemo⟩ | hempty) | ⟨-, memo, hmemo, hdeduces⟩
  · rw [hmemo]
    exact h
  · rw [hempty]
    exact idle_empty
  · have hidle : Idle memo := by
      rcases hmemo with rfl | rfl
      · exact h
      · exact idle_empty
    exact hidle.balanced hdeduces.balanced

end Credence.KnowledgeBase
