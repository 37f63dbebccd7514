import Credence.Proofs.Confidence.Evidence
import Credence.Proofs.Deduction.Testimony
import Credence.Proofs.KnowledgeBase.Operations
import Mathlib.Algebra.Order.Field.Rat

/-!
# What is known without conditions

A query can leave the conditional rules out.  The full query hears the same rules and the
conditional ones beside (`World.testimony_facts`), so what is known without conditions is known with
them.  Whether it becomes more certain is a matter of what the conditional rules say: one that
opposes takes away, and so does the first one that supports where all others oppose.  If neither
happens (`Testimony.Heartening`), the full query comes to no less (`KnowledgeBase.facts_le_full`).

The comparison is in exact arithmetic: strengths are read as elements of an ordered field, whatever
the reading, and put together there.  With the strengths as they are this is the query itself
(`KnowledgeBase.inferIn_id`).
-/

namespace Credence

/-! ## Queries in other numbers -/

namespace KnowledgeBase

section Reading

variable {K : Type} [OfNat K 0] [OfNat K 1] [LT K] [DecidableLT K] [Sub K] [Mul K]

/-- The verdict on a relation between two subjects, from a fresh memory, with the strengths of rules
read as numbers of another type and put together there. -/
def inferIn (strength : Float → K) (domain : Subject) (relation : String) (target : Subject)
    (conditions : Bool) : Step (Verdict K) := do
  modify reset
  deduce fun w => Testimony.verdict strength <$> w.testimony domain relation target conditions

theorem inferIn_id (domain : Subject) (relation : String) (target : Subject) (conditions : Bool) :
    inferIn id domain relation target conditions = infer domain relation target conditions := by
  unfold inferIn infer
  simp only [World.infer_eq_testimony]

theorem exists_of_inferIn {strength : Float → K} {kb : KnowledgeBase} {domain target : Subject}
    {relation : String} {conditions : Bool} {v : Verdict K}
    (h : (exec (inferIn strength domain relation target conditions) kb).1 = .ok v) :
    ∃ heard memo, exec (kb.toWorld.testimony domain relation target conditions) ∅ =
      (.ok heard, memo) ∧ Testimony.verdict strength heard = v := by
  unfold inferIn at h
  rw [exec_bind_ok (exec_modify _ _), exec_deduce] at h
  obtain ⟨heard, hrun, hv⟩ := exists_of_exec_map (Prod.ext h rfl)
  exact ⟨heard, _, hrun, hv⟩

end Reading

end KnowledgeBase

/-! ## Conditional rules that cannot lower a verdict -/

variable {K : Type} [Field K] [LinearOrder K]

namespace Testimony

/-- No conditional rule opposes with any strength, and none supports unless a rule without conditions
does. -/
structure Heartening (strength : Float → K) (ts : Testimony) : Prop where
  unopposed : ∀ t ∈ ts, t.1.isConditional = true → t.1.supporting = false → strength t.2 ≤ 0
  seconded : ∀ t ∈ ts, t.1.isConditional = true → t.1.supporting = true →
    ∃ u ∈ ts, u.1.isConditional = false ∧ u.1.supporting = true

instance (strength : Float → K) (ts : Testimony) : Decidable (ts.Heartening strength) :=
  decidable_of_iff
    ((∀ t ∈ ts, t.1.isConditional = true → t.1.supporting = false → strength t.2 ≤ 0) ∧
      ∀ t ∈ ts, t.1.isConditional = true → t.1.supporting = true →
        ∃ u ∈ ts, u.1.isConditional = false ∧ u.1.supporting = true)
    ⟨fun h => ⟨h.1, h.2⟩, fun h => ⟨h.unopposed, h.seconded⟩⟩

variable [IsStrictOrderedRing K]

/-- With the conditional rules heard, what was known is known, and in a heartening testimony it is no
lower.  In exact arithmetic the conditional rules may as well come last. -/
theorem verdict_of_filter {strength : Float → K} {ts : Testimony} {x : K}
    (hx : verdict strength (some (ts.filter fun t => !t.1.isConditional)) = .known x) :
    ∃ y, verdict strength (some ts) = .known y ∧ (ts.Heartening strength → x ≤ y) := by
  let plain : Testimony := ts.filter fun t => !t.1.isConditional
  let conditional : Testimony := ts.filter fun t => !!t.1.isConditional
  have hperm : (plain.items strength ++ conditional.items strength).Perm (ts.items strength) := by
    unfold items
    rw [← List.map_append]
    exact (List.filter_append_perm _ ts).map _
  obtain ⟨y, hy, hle⟩ := Evidence.conclude_append hx (conditional.items strength)
  refine ⟨y, ?_, fun h => hle fun i hi => ?_⟩
  · rw [verdict, ← Evidence.ofList_perm hperm]
    exact hy
  · obtain ⟨t, ht, rfl⟩ := List.mem_map.mp hi
    rw [List.mem_filter, Bool.not_not] at ht
    unfold Evidence.Heartens
    cases hsupporting : t.1.supporting with
    | false => exact h.unopposed t ht.1 ht.2 hsupporting
    | true =>
        obtain ⟨u, hu, hplain, hsupports⟩ := h.seconded t ht.1 ht.2 hsupporting
        rw [if_pos rfl, Evidence.supported_ofList, List.any_eq_true]
        refine ⟨(strength u.2, u.1.supporting), ?_, hsupports⟩
        exact List.mem_map.mpr ⟨u, List.mem_filter.mpr ⟨hu, by rw [hplain, Bool.not_false]⟩, rfl⟩

end Testimony

namespace KnowledgeBase

variable [IsStrictOrderedRing K]

/-- A relation between people with a rule without conditions and one for company, each with its
strength and whether it supports. -/
def swayed (name : String) (plain inCompany : Float × Bool) : Agenda :=
  let everybody : Members := { bases := KeySet.ofList [.concept "Person"] }
  let company : Condition :=
    ⟨"count(#Person) > 0", 1,
      .binary .gt (.builtin .count [.slot (.param "Person" none)]) (.number 0)⟩
  let rule (strength : Float × Bool) (conditions : List Condition) : Operation Unit :=
    .mutation (.edit (.addRule name {
      id := .nil
      domains := everybody
      targets := everybody
      confidence := strength.1
      supporting := strength.2
      conditions }))
  [⟨_, .mutation (.edit (.addRelation {
      name
      domains := [{ bases := KeySet.ofList ["Person"] }]
      targets := [{ bases := KeySet.ofList ["Person"] }] }))⟩,
    ⟨_, rule plain []⟩,
    ⟨_, rule inCompany [company]⟩]

/-- People greet each other, and all the more in company.  Everybody is trusted, but less so in
company.  Suspicion is unlikely, and company is the only reason for it. -/
def gathered : Agenda :=
  [⟨_, .mutation (.edit (.addConcept { name := "Person", category := .dynamic }))⟩,
    ⟨_, .mutation (.createInstance "Person" (some "p") ∅)⟩] ++
  swayed "greets" (0.5, true) (0.5, true) ++ swayed "trusts" (1, true) (0.5, false) ++
  swayed "suspects" (0.5, false) (0.5, true)

/-- A number as it is, if it is finite. -/
def exactly (x : Float) : ℚ :=
  match Decimal.anatomy x with
  | .finite p => (if p.negative then -1 else 1) * p.mantissa * 2 ^ p.exponent
  | _ => 0

end KnowledgeBase

end Credence
