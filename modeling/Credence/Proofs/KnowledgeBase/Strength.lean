import Credence.Proofs.Condition.Slots
import Credence.Proofs.Confidence.Weighing
import Credence.Proofs.KnowledgeBase.Facts

/-!
# The strength of a rule as a formula

The strength of a rule is worked out scenario by scenario and condition by condition, and no further
than it has to be.  Here it is compared with the formula over the whole table of outcomes
(`Rule.formula`).  The two agree in exact arithmetic, whatever is skipped
(`World.ruleStrength_eq_formula`), so the strength lies between zero and one, and the order of
conditions and scenarios is of no account.

To evaluate a condition may change the memory, so outcomes make a table only if each of them is the
same in every memory that can come up.  `World.Tabulated` says so for any property of memories that
the evaluations keep.  Numbers are read as elements of an ordered field; as they are, they give the
strength that queries use (`World.ruleStrengthIn_id`).
-/

namespace Credence

/-- The order of its conditions does not change the parameters of a rule. -/
theorem Rule.freeSlots_perm {rule : Rule} {conditions : List Condition}
    (h : conditions.Perm rule.conditions) :
    Rule.freeSlots { rule with conditions } = rule.freeSlots := by
  refine KeySet.ext_has fun s => ?_
  rw [Bool.eq_iff_iff, Rule.has_freeSlots, Rule.has_freeSlots]
  exact exists_congr fun c => and_congr_left' h.mem_iff

namespace World

section Reading

variable {K : Type} [OfNat K 0] [OfNat K 1] [Add K] [Sub K] [Mul K] [LE K] [DecidableLE K]
variable {m : Type → Type} [Monad m] [MonadExceptOf Error m]

/-- The strength of a rule over given scenarios, with its numbers and outcomes read as numbers of
another type. -/
def strengthOver (reading : Float → K) (r : Reasoner m) (rule : Rule)
    (scenarios : List Scenario) : m K :=
  Weighing.overScenarios
    (fun scenario =>
      Weighing.inScenario (reading rule.confidence)
        (fun c : Condition => do
          let v ← c.tree.evaluate r scenario
          return reading v.asConfidence)
        (fun c => reading c.salience) 0 rule.conditions)
    1 scenarios

/-- The strength of a rule on a pair, in numbers of another type. -/
def ruleStrengthIn (reading : Float → K) (r : Reasoner m) (rule : Rule)
    (domain target : Subject) : m K := do
  let base := Scenario.ofQuery domain.toValue target.toValue
  let scenarios ← base.extend r.candidates rule.freeSlots
  strengthOver reading r rule scenarios

theorem ruleStrengthIn_id (r : Reasoner m) (rule : Rule) (domain target : Subject) :
    ruleStrengthIn id r rule domain target = ruleStrength r rule domain target := rfl

end Reading

end World

variable {K : Type} [Field K] [LinearOrder K]

/-- The strength of a rule over scenarios, from a table of the outcomes of its conditions. -/
def Rule.formula (reading : Float → K) (rule : Rule) (table : Condition → Scenario → K)
    (scenarios : List Scenario) : K :=
  1 - (scenarios.map fun s =>
    1 - reading rule.confidence *
      max 0 (1 - (rule.conditions.map fun c => (1 - table c s) * reading c.salience).sum)).prod

/-- The order of conditions and scenarios does not change the formula. -/
theorem Rule.formula_perm {reading : Float → K} {rule : Rule} {table : Condition → Scenario → K}
    {conditions : List Condition} (hconditions : conditions.Perm rule.conditions)
    {scenarios scenarios' : List Scenario} (hscenarios : scenarios'.Perm scenarios) :
    Rule.formula reading { rule with conditions } table scenarios' =
      rule.formula reading table scenarios := by
  have hlost (s : Scenario) :
      (conditions.map fun c => (1 - table c s) * reading c.salience).sum =
        (rule.conditions.map fun c => (1 - table c s) * reading c.salience).sum :=
    Weighing.lost_perm hconditions
  unfold Rule.formula
  simp only [hlost]
  exact congrArg (1 - ·) (Weighing.doubtAfter_perm hscenarios)

namespace World

/-- The outcomes of the conditions of a rule make a table: wherever the memory has some property, a
condition evaluates to the entry in each scenario.  All entries and weights are between zero and
one. -/
structure Tabulated (reading : Float → K) (r : Reasoner Deduction) (P : Memo → Prop) (rule : Rule)
    (table : Condition → Scenario → K) (scenarios : List Scenario) : Prop where
  confidence : reading rule.confidence ∈ Set.Icc 0 1
  salience : ∀ c ∈ rule.conditions, reading c.salience ∈ Set.Icc 0 1
  outcome : ∀ s ∈ scenarios, ∀ c ∈ rule.conditions, table c s ∈ Set.Icc 0 1
  evaluates : ∀ s ∈ scenarios, ∀ c ∈ rule.conditions,
    Succeeds P (c.tree.evaluate r s) fun v => reading v.asConfidence = table c s

namespace Tabulated

variable {reading : Float → K} {r : Reasoner Deduction} {P : Memo → Prop} {rule : Rule}
variable {table : Condition → Scenario → K} {scenarios : List Scenario}

theorem reordered (h : Tabulated reading r P rule table scenarios) {conditions : List Condition}
    (hconditions : conditions.Perm rule.conditions) {scenarios' : List Scenario}
    (hscenarios : scenarios'.Perm scenarios) :
    Tabulated reading r P { rule with conditions } table scenarios' where
  confidence := h.confidence
  salience c hc := h.salience c (hconditions.subset hc)
  outcome s hs c hc := h.outcome s (hscenarios.subset hs) c (hconditions.subset hc)
  evaluates s hs c hc := h.evaluates s (hscenarios.subset hs) c (hconditions.subset hc)

variable [IsStrictOrderedRing K]

/-- The strength that the conditions leave in a scenario. -/
theorem strength_mem (h : Tabulated reading r P rule table scenarios) {s : Scenario}
    (hs : s ∈ scenarios) :
    Weighing.remaining (reading rule.confidence) (table · s) (fun c => reading c.salience)
      rule.conditions ∈ Set.Icc 0 1 :=
  Weighing.remaining_mem h.confidence (fun c hc => (h.outcome s hs c hc).2) fun c hc =>
    (h.salience c hc).1

theorem formula_mem (h : Tabulated reading r P rule table scenarios) :
    rule.formula reading table scenarios ∈ Set.Icc 0 1 := by
  have hdoubt := Weighing.doubtAfter_mem fun s hs => h.strength_mem (s := s) hs
  exact ⟨sub_nonneg.mpr hdoubt.2, sub_le_self 1 hdoubt.1⟩

/-- The loops come to the formula. -/
theorem succeeds (h : Tabulated reading r P rule table scenarios) :
    Succeeds P (strengthOver reading r rule scenarios)
      (· = rule.formula reading table scenarios) := by
  have hinner : ∀ s ∈ scenarios,
      Succeeds P (Weighing.inScenario (reading rule.confidence)
        (fun c : Condition => do
          let v ← c.tree.evaluate r s
          return reading v.asConfidence)
        (fun c => reading c.salience) 0 rule.conditions)
        (· = Weighing.remaining (reading rule.confidence) (table · s)
          (fun c => reading c.salience) rule.conditions) := by
    intro s hs
    have hcompute : ∀ c ∈ rule.conditions, Succeeds P
        (do
          let v ← c.tree.evaluate r s
          return reading v.asConfidence) (· = table c s) :=
      fun c hc => (h.evaluates s hs c hc).bind fun v hv => succeeds_pure hv
    have hloop := Weighing.succeeds_inScenario (reading rule.confidence) hcompute
      (fun c hc => (h.outcome s hs c hc).2) (fun c hc => (h.salience c hc).1) zero_lt_one
    rwa [zero_add] at hloop
  have houter := Weighing.succeeds_overScenarios hinner (fun s hs => (h.strength_mem hs).2)
    zero_lt_one
  rwa [one_mul] at houter

end Tabulated

variable [IsStrictOrderedRing K]

/-- If the outcomes of a rule over the scenarios of a pair make a table, its strength is that of the
formula, between zero and one, and zero if there are no scenarios.  The conditions and the scenarios
may come in any order. -/
theorem ruleStrength_eq_formula {reading : Float → K} {r : Reasoner Deduction} {P : Memo → Prop}
    {rule : Rule} {table : Condition → Scenario → K} {scenarios : List Scenario}
    (htable : Tabulated reading r P rule table scenarios) {domain target : Subject}
    {memo memo' : Memo}
    (hscenarios : exec ((Scenario.ofQuery domain.toValue target.toValue).extend r.candidates
      rule.freeSlots) memo = (.ok scenarios, memo'))
    (hmemo : P memo') :
    let x := rule.formula reading table scenarios
    (exec (ruleStrengthIn reading r rule domain target) memo).1 = .ok x ∧ 0 ≤ x ∧ x ≤ 1 ∧
      (scenarios = [] → x = 0) ∧
      (∀ conditions, conditions.Perm rule.conditions →
        (exec (ruleStrengthIn reading r { rule with conditions } domain target) memo).1 = .ok x) ∧
      (∀ scenarios', scenarios'.Perm scenarios →
        (exec (strengthOver reading r rule scenarios') memo').1 = .ok x) ∧
      ruleStrengthIn id r rule domain target = ruleStrength r rule domain target := by
  intro x
  have hloop (conditions : List Condition) (hconditions : conditions.Perm rule.conditions)
      (scenarios' : List Scenario) (hperm : scenarios'.Perm scenarios) :
      (exec (strengthOver reading r { rule with conditions } scenarios') memo').1 = .ok x := by
    obtain ⟨y, memo'', hrun, hy, -⟩ := (htable.reordered hconditions hperm).succeeds memo' hmemo
    rw [hrun, hy, Rule.formula_perm hconditions hperm]
  have hrun (conditions : List Condition) (hconditions : conditions.Perm rule.conditions) :
      (exec (ruleStrengthIn reading r { rule with conditions } domain target) memo).1 =
        .ok x := by
    unfold ruleStrengthIn
    rw [Rule.freeSlots_perm hconditions, exec_bind_ok hscenarios]
    exact hloop conditions hconditions scenarios (.refl _)
  refine ⟨hrun rule.conditions (.refl _), htable.formula_mem.1, htable.formula_mem.2, ?_, hrun,
    fun scenarios' hperm => hloop rule.conditions (.refl _) scenarios' hperm,
    ruleStrengthIn_id r rule domain target⟩
  rintro rfl
  exact sub_self 1

end World

/-! ## A rule with two conditions -/

namespace KnowledgeBase

/-- People recommend each other on the word of anybody who is trusted, the more so if they know each
other. -/
def recommending : Rule :=
  let people : Members := { bases := KeySet.ofList [.concept "Person"] }
  { id := .nil
    domains := people
    targets := people
    confidence := 0.5
    conditions := [
      ⟨"#Person.trust", 0.5, .property (.slot (.param "Person" none)) "trust"⟩,
      ⟨"%=knows=@", 0.5, .relation "knows" (.slot .domain) (.slot .target) false⟩] }

/-- Of two people, one is trusted halfway.  Everybody is likely enough to know the other. -/
def acquainted : Agenda :=
  let relation (name : String) : Operation Unit :=
    .mutation (.edit (.addRelation {
      name
      domains := [{ bases := KeySet.ofList ["Person"] }]
      targets := [{ bases := KeySet.ofList ["Person"] }] }))
  [⟨_, .mutation (.edit (.addConcept { name := "Person", category := .dynamic }))⟩,
    ⟨_, .mutation (.createInstance "Person" (some "p") (Table.ofList [("trust", .number 0.5)]))⟩,
    ⟨_, .mutation (.createInstance "Person" (some "q") (Table.ofList [("trust", .number 0)]))⟩,
    ⟨_, relation "knows"⟩,
    ⟨_, .mutation (.edit (.addRule "knows" { recommending with conditions := [] }))⟩,
    ⟨_, relation "recommends"⟩,
    ⟨_, .mutation (.edit (.addRule "recommends" recommending))⟩]

/-- The first evaluation asks whether the two know each other, and all others remember it.  The
outcomes are the same either way, and the strength follows from them by the theorem. -/
theorem ruleStrength_eq_formula_recommending :
    let r := (after { supply := ⟨0, 0⟩ } acquainted).toWorld.reasoner
    let p : Subject := .inst ⟨"Person", "p"⟩
    let q : Subject := .inst ⟨"Person", "q"⟩
    let table (c : Condition) (s : Scenario) : ℚ :=
      (exec (c.tree.evaluate r s) ∅).1.toOption.elim 0 fun v => exactly v.asConfidence
    let memos : List Memo := [∅, (∅ : Memo).insert ⟨"knows", 0, p, q⟩ (.done 0.5)]
    ∃ scenarios, exec ((Scenario.ofQuery p.toValue q.toValue).extend r.candidates
        recommending.freeSlots) ∅ = (.ok scenarios, ∅) ∧
      World.Tabulated exactly r (· ∈ memos) recommending table scenarios ∧
      recommending.formula exactly table scenarios = 11 / 32 ∧
      (exec (World.ruleStrengthIn exactly r recommending p q) ∅).1 = .ok (11 / 32) ∧
      (exec (World.strengthOver exactly r recommending scenarios.reverse) ∅).1 =
        .ok (11 / 32) := by
  intro r p q table memos
  let scenarios : List Scenario := [⟨"Person", "p"⟩, ⟨"Person", "q"⟩].map fun key : InstanceKey =>
    (Scenario.ofQuery p.toValue q.toValue).insert (.param "Person" none) (.inst key)
  have hscenarios : exec ((Scenario.ofQuery p.toValue q.toValue).extend r.candidates
      recommending.freeSlots) ∅ = (.ok scenarios, ∅) := by rfl
  have htable : World.Tabulated exactly r (· ∈ memos) recommending table scenarios := {
    confidence := by decide +kernel
    salience := by decide +kernel
    outcome := by decide +kernel
    evaluates := by decide +kernel }
  have hformula : recommending.formula exactly table scenarios = 11 / 32 := by decide +kernel
  obtain ⟨hrun, -, -, -, -, hreordered, -⟩ :=
    World.ruleStrength_eq_formula htable hscenarios List.mem_cons_self
  rw [hformula] at hrun hreordered
  exact ⟨scenarios, hscenarios, htable, hformula, hrun, hreordered _ scenarios.reverse_perm⟩

end KnowledgeBase

end Credence
