import Credence.Deduction.Inference
import Credence.Proofs.Condition.Slots
import Credence.Proofs.World.Reading

/-!
# Running one deduction in two ways

Conditions, rules and inferences are evaluated in any monad that can fail.  A `Simulation` relates
the computations of two such monads: it says which pairs belong together, with a fact about the
value that both give, and that sequencing keeps pairs together.  This file goes through the
evaluation once and shows that it keeps them together too, provided that the two reasoners do and
that the two ways of answering a question do.

Everything that is later said about a whole deduction (how deep it nests, what its memory is worth,
which errors it may end in) comes from choosing a simulation.

An error for an unfilled slot is the only one with a condition.  A simulation need not allow it;
then the evaluation of a tree is related in those scenarios that fill all the slots of the tree.
-/

namespace Credence

/-- A relation between the computations of two monads that sequencing keeps. -/
structure Simulation (m n : Type → Type) [Monad m] [Monad n] [MonadExceptOf Error m]
    [MonadExceptOf Error n] where
  /-- Two computations belong together, and the values that they give have a property. -/
  Rel : {α : Type} → (α → Prop) → m α → n α → Prop
  /-- The errors that both sides may throw. -/
  Allowed : Error → Prop
  pure {α : Type} {P : α → Prop} {a : α} (ha : P a) : Rel P (pure a) (pure a)
  throw {α : Type} {P : α → Prop} {e : Error} (he : Allowed e) :
    Rel P (throw e : m α) (throw e : n α)
  bind {α β : Type} {P : α → Prop} {Q : β → Prop} {x : m α} {y : n α} {f : α → m β} {g : α → n β}
    (hxy : Rel P x y) (hfg : ∀ a, P a → Rel Q (f a) (g a)) : Rel Q (x >>= f) (y >>= g)
  mono {α : Type} {P Q : α → Prop} {x : m α} {y : n α} (hPQ : ∀ a, P a → Q a) (hxy : Rel P x y) :
    Rel Q x y
  allowed {e : Error} (he : ∀ s, e ≠ .unbound s) : Allowed e

namespace Simulation

variable {m n : Type → Type} [Monad m] [Monad n] [MonadExceptOf Error m] [MonadExceptOf Error n]
variable (S : Simulation m n)

/-- Two computations belong together, whatever they give. -/
abbrev Related {α : Type} (x : m α) (y : n α) : Prop := S.Rel (fun _ => True) x y

/-- Two reasoners belong together. -/
structure Reasoners (r : Reasoner m) (r' : Reasoner n) : Prop where
  infer (domain : Value) (relation : String) (target : Value) (conditions : Bool) :
    S.Related (r.infer domain relation target conditions)
      (r'.infer domain relation target conditions)
  candidates {s : Slot} (hs : s.isFree = true) : S.Related (r.candidates s) (r'.candidates s)
  property (v : Value) (key : String) : S.Related (r.property v key) (r'.property v key)
  method (v : Value) (name : String) (args : List Value) :
    S.Related (r.method v name args) (r'.method v name args)
  construct (concept : String) (args : List Value) :
    S.Related (r.construct concept args) (r'.construct concept args)

variable {S}

theorem ite {α : Type} {P : α → Prop} {c : Prop} [Decidable c] {x x' : m α} {y y' : n α}
    (hthen : c → S.Rel P x y) (helse : ¬ c → S.Rel P x' y') :
    S.Rel P (if c then x else x') (if c then y else y') := by
  by_cases hc : c
  · rw [if_pos hc, if_pos hc]
    exact hthen hc
  · rw [if_neg hc, if_neg hc]
    exact helse hc

theorem ofExcept {α : Type} {x : Except Error α} (hx : World.Scoped x) :
    S.Rel (fun a => x = .ok a) (MonadExcept.ofExcept x) (MonadExcept.ofExcept x) := by
  cases x with
  | ok a => exact S.pure rfl
  | error e => exact S.throw (S.allowed fun s he => hx s (congrArg _ he))

/-! ## Scenarios -/

variable (S) in
/-- A scenario fills a slot, or may leave it open. -/
def Fills (scenario : Scenario) (s : Slot) : Prop :=
  scenario.contains s = true ∨ S.Allowed (.unbound s)

theorem lookUp {scenario : Scenario} {s : Slot} (h : S.Fills scenario s) :
    S.Related (Expr.lookUp scenario s) (Expr.lookUp scenario s) := by
  unfold Expr.lookUp
  cases hs : scenario.get? s with
  | some v => exact S.pure trivial
  | none =>
      rcases h with h | h
      · rw [Table.contains, hs] at h
        exact absurd h Bool.false_ne_true
      · exact S.throw h

/-- The scenarios that are made fill what the old ones fill, and the new slots. -/
theorem fillAll {candidates : Slot → m (List Value)} {candidates' : Slot → n (List Value)}
    (slots : List Slot) (scenarios : List Scenario)
    (hcandidates : ∀ s ∈ slots, S.Related (candidates s) (candidates' s)) (K : Slot → Prop)
    (hK : ∀ scenario ∈ scenarios, ∀ s, K s → scenario.contains s = true) :
    S.Rel (fun filled => ∀ scenario ∈ filled, ∀ s, K s ∨ s ∈ slots → scenario.contains s = true)
      (Scenario.fillAll candidates slots scenarios)
      (Scenario.fillAll candidates' slots scenarios) := by
  induction slots generalizing scenarios K with
  | nil =>
      refine S.pure fun scenario hmem s hs => ?_
      exact hK scenario hmem s (hs.resolve_right List.not_mem_nil)
  | cons slot rest ih =>
      refine S.bind (hcandidates slot List.mem_cons_self) fun values _ => ?_
      refine ite (fun _ => S.pure fun scenario hmem => absurd hmem List.not_mem_nil) fun _ => ?_
      have hrest : ∀ s ∈ rest, S.Related (candidates s) (candidates' s) := fun s hs =>
        hcandidates s (List.mem_cons_of_mem _ hs)
      have hfilled : ∀ scenario ∈ Scenario.fill slot values scenarios, ∀ s, K s ∨ s = slot →
          scenario.contains s = true := by
        intro scenario hmem s hs
        simp only [Scenario.fill, List.mem_flatMap, List.mem_map] at hmem
        obtain ⟨base, hbase, v, -, rfl⟩ := hmem
        rcases hs with hs | hs
        · simp [hK base hbase s hs]
        · simp [hs]
      have h := ih (Scenario.fill slot values scenarios) hrest (fun s => K s ∨ s = slot) hfilled
      simpa only [List.mem_cons, or_assoc] using h

/-- Extending a scenario gives scenarios that fill what it fills, and the new slots. -/
theorem extend {candidates : Slot → m (List Value)} {candidates' : Slot → n (List Value)}
    (base : Scenario) (slots : SlotSet)
    (hcandidates : ∀ s, slots.has s = true → S.Related (candidates s) (candidates' s)) :
    S.Rel (fun filled => ∀ scenario ∈ filled, ∀ s,
        base.contains s = true ∨ slots.has s = true → scenario.contains s = true)
      (base.extend candidates slots) (base.extend candidates' slots) := by
  have hopen : ∀ s ∈ slots.toList.filter fun s => !base.contains s,
      S.Related (candidates s) (candidates' s) := fun s hs =>
    hcandidates s (KeySet.mem_toList_iff.mp (List.mem_filter.mp hs).1)
  have hbase : ∀ scenario ∈ [base], ∀ s, base.contains s = true → scenario.contains s = true := by
    intro scenario hmem s hs
    rw [List.mem_singleton.mp hmem]
    exact hs
  have h := fillAll (slots.toList.filter fun s => !base.contains s) [base] hopen _ hbase
  simp only [List.mem_filter, KeySet.mem_toList_iff, Bool.not_eq_true'] at h
  -- what is not ranged over is filled already
  have hsplit : ∀ s, base.contains s = true ∨ slots.has s = true ↔
      base.contains s = true ∨ slots.has s = true ∧ base.contains s = false := by
    intro s
    cases base.contains s <;> simp
  simpa only [Scenario.extend, hsplit] using h

/-! ## Conditions -/

theorem countWhere {test : Scenario → m Bool} {test' : Scenario → n Bool}
    (scenarios : List Scenario) (htest : ∀ s ∈ scenarios, S.Related (test s) (test' s)) :
    S.Related (Expr.countWhere test scenarios) (Expr.countWhere test' scenarios) := by
  induction scenarios with
  | nil => exact S.pure trivial
  | cons s rest ih =>
      refine S.bind (htest s List.mem_cons_self) fun passed _ => ?_
      refine S.bind (ih fun s hs => htest s (List.mem_cons_of_mem _ hs)) fun count _ => ?_
      exact S.pure trivial

/-- The second half of a `count`: the counted tree and the filters in a scenario of the count. -/
private theorem counts {r : Reasoner m} {r' : Reasoner n} {counted : Expr} {filters : List Expr}
    {scenario : Scenario}
    (hfill : ∀ s, counted.slots.has s = true → S.Fills scenario s)
    (hcounted : S.Related (counted.evaluate r scenario) (counted.evaluate r' scenario))
    (hfilters : S.Related (Expr.allTrue r filters scenario) (Expr.allTrue r' filters scenario)) :
    S.Related
      (do
        let holds ← match counted with
          | .slot k => do
            let _ ← Expr.lookUp (m := m) scenario k
            Pure.pure true
          | .relation _ _ _ _ => do
            let v ← counted.evaluate r scenario
            Pure.pure v.truthy
          | _ => Pure.pure true
        if holds then Expr.allTrue r filters scenario else return false)
      (do
        let holds ← match counted with
          | .slot k => do
            let _ ← Expr.lookUp (m := n) scenario k
            Pure.pure true
          | .relation _ _ _ _ => do
            let v ← counted.evaluate r' scenario
            Pure.pure v.truthy
          | _ => Pure.pure true
        if holds then Expr.allTrue r' filters scenario else return false) := by
  have hrest : ∀ holds : Bool, True →
      S.Related (if holds then Expr.allTrue r filters scenario else return false)
        (if holds then Expr.allTrue r' filters scenario else return false) :=
    fun holds _ => ite (fun _ => hfilters) fun _ => S.pure trivial
  cases counted with
  | slot k =>
      exact S.bind (lookUp (hfill k (by simp))) fun _ _ => S.bind (S.pure trivial) hrest
  | relation name domain target negated =>
      exact S.bind hcounted fun v _ => S.bind (S.pure trivial) hrest
  | _ => exact S.bind (S.pure trivial) hrest

/-- Evaluation keeps computations together in the scenarios that fill the slots of a tree.  The
induction follows the evaluator; a `count` is the one place where the scenario grows, by exactly
the slots that the count hides from the outside. -/
theorem evaluate {r : Reasoner m} {r' : Reasoner n} (hr : S.Reasoners r r') :
    ∀ (e : Expr) (scenario : Scenario), (∀ s, e.slots.has s = true → S.Fills scenario s) →
      S.Related (e.evaluate r scenario) (e.evaluate r' scenario) := by
  refine (Expr.evaluate.mutual_induct
    (fun e scenario => (∀ s, e.slots.has s = true → S.Fills scenario s) →
      S.Related (e.evaluate r scenario) (e.evaluate r' scenario))
    (fun es scenario => (∀ e ∈ es, ∀ s, e.slots.has s = true → S.Fills scenario s) →
      S.Related (Expr.allTrue r es scenario) (Expr.allTrue r' es scenario))
    (fun es scenario => (∀ e ∈ es, ∀ s, e.slots.has s = true → S.Fills scenario s) →
      S.Related (Expr.evaluateAll r es scenario) (Expr.evaluateAll r' es scenario))
    ?slot ?relation ?property ?method ?construct ?number ?text ?facts ?identical ?distinct ?equal
    ?unequal ?approx ?count ?otherwise ?formula ?binary ?negate ?trueNil ?trueCons ?allNil
    ?allCons).1
  case slot =>
    intro k scenario hfill
    simp only [Expr.evaluate]
    exact lookUp (hfill k (by simp))
  case relation =>
    intro name domain target negated scenario ihdomain ihtarget hfill
    simp only [Expr.evaluate]
    refine S.bind (ihdomain fun s hs => hfill s (by simp [hs])) fun d _ => ?_
    refine S.bind (ihtarget fun s hs => hfill s (by simp [hs])) fun t _ => ?_
    exact S.bind (hr.infer d name t true) fun v _ => S.pure trivial
  case property =>
    intro subject key scenario ih hfill
    simp only [Expr.evaluate]
    refine S.bind (ih hfill) fun v _ => ?_
    exact ite (fun _ => S.pure trivial) fun _ => hr.property v key
  case method =>
    intro subject name args scenario ihsubject ihargs hfill
    simp only [Expr.evaluate]
    refine S.bind (ihsubject fun s hs => hfill s (by simp [hs])) fun v _ => ?_
    refine S.bind (ihargs fun e he s hs => hfill s ?_) fun values _ => hr.method v name values
    simp only [Expr.has_slots_method, Bool.or_eq_true, List.any_eq_true]
    exact Or.inr ⟨e, he, hs⟩
  case construct =>
    intro concept args scenario ih hfill
    simp only [Expr.evaluate]
    refine S.bind (ih fun e he s hs => hfill s ?_) fun values _ => hr.construct concept values
    simp only [Expr.has_slots_construct, List.any_eq_true]
    exact ⟨e, he, hs⟩
  case number =>
    intro x scenario _
    simp only [Expr.evaluate]
    exact S.pure trivial
  case text =>
    intro s scenario _
    simp only [Expr.evaluate]
    exact S.pure trivial
  case facts =>
    intro name domain target negated scenario ihdomain ihtarget hfill
    have hparts : ∀ s, domain.slots.has s = true ∨ target.slots.has s = true →
        S.Fills scenario s := fun s hs => hfill s (by simpa [Expr.has_slots_builtin] using hs)
    simp only [Expr.evaluate]
    refine S.bind (ihdomain fun s hs => hparts s (.inl hs)) fun d _ => ?_
    refine S.bind (ihtarget fun s hs => hparts s (.inr hs)) fun t _ => ?_
    exact S.bind (hr.infer d name t false) fun v _ => S.pure trivial
  case identical | distinct | equal | unequal =>
    intro a b scenario iha ihb hfill
    have hparts : ∀ s, a.slots.has s = true ∨ b.slots.has s = true → S.Fills scenario s :=
      fun s hs => hfill s (by simpa [Expr.has_slots_builtin] using hs)
    simp only [Expr.evaluate]
    refine S.bind (iha fun s hs => hparts s (.inl hs)) fun x _ => ?_
    exact S.bind (ihb fun s hs => hparts s (.inr hs)) fun y _ => S.pure trivial
  case approx =>
    intro a b c scenario iha ihb ihc hfill
    have hparts : ∀ s, a.slots.has s = true ∨ b.slots.has s = true ∨ c.slots.has s = true →
        S.Fills scenario s := fun s hs => hfill s (by simpa [Expr.has_slots_builtin] using hs)
    simp only [Expr.evaluate]
    refine S.bind (iha fun s hs => hparts s (.inl hs)) fun x _ => ?_
    refine S.bind (ihb fun s hs => hparts s (.inr (.inl hs))) fun y _ => ?_
    exact S.bind (ihc fun s hs => hparts s (.inr (.inr hs))) fun z _ => S.pure trivial
  case count =>
    intro counted filters scenario ihfilters ihcounted hfill
    simp only [Expr.evaluate]
    have hcandidates : ∀ s, counted.introducedSlots.has s = true →
        S.Related (r.candidates s) (r'.candidates s) := fun s hs =>
      hr.candidates (Expr.isFree_of_introduced hs)
    refine S.bind (extend scenario counted.introducedSlots hcandidates) fun scenarios hnew => ?_
    refine S.bind (countWhere scenarios fun inner hinner => ?_) fun k _ => S.pure trivial
    -- a slot of an argument is ranged over, or the whole `count` asks for it
    have hargs : ∀ e ∈ counted :: filters, ∀ s, e.slots.has s = true → S.Fills inner s := by
      intro e he s hs
      by_cases hranged : counted.introducedSlots.has s = true
      · exact Or.inl (hnew inner hinner s (Or.inr hranged))
      · have hneeded : (Expr.builtin .count (counted :: filters)).slots.has s = true := by
          rw [Expr.has_slots_count, Expr.headSlots_cons, Bool.and_eq_true, List.any_eq_true]
          exact ⟨⟨e, he, hs⟩, by simpa using hranged⟩
        exact (hfill s hneeded).imp_left fun h => hnew inner hinner s (Or.inl h)
    have hcounted := hargs counted List.mem_cons_self
    exact counts hcounted (ihcounted inner hcounted)
      (ihfilters inner fun e he => hargs e (List.mem_cons_of_mem _ he))
  case otherwise =>
    intro function args scenario hfacts hidentical hdistinct hequal hunequal happrox hcount hfill
    -- the arguments fit none of the calls above
    have hleft : Expr.evaluate r (.builtin function args) scenario = Pure.pure .null := by
      rw [Expr.evaluate] <;> assumption
    have hright : Expr.evaluate r' (.builtin function args) scenario = Pure.pure .null := by
      rw [Expr.evaluate] <;> assumption
    rw [hleft, hright]
    exact S.pure trivial
  case formula =>
    intro args body source scenario ih hfill
    simp only [Expr.evaluate]
    refine S.bind (ih fun e he s hs => hfill s ?_) fun values _ => S.pure trivial
    simp only [Expr.has_slots_formula, List.any_eq_true]
    exact ⟨e, he, hs⟩
  case binary =>
    intro op left right scenario ihleft ihright hfill
    have hright := ihright fun s hs => hfill s (by simp [hs])
    simp only [Expr.evaluate]
    refine S.bind (ihleft fun s hs => hfill s (by simp [hs])) fun x _ => ?_
    -- only `and` and `or` may leave the right side alone
    cases op with
    | and => exact ite (fun _ => hright) fun _ => S.pure trivial
    | or => exact ite (fun _ => S.pure trivial) fun _ => hright
    | _ => exact S.bind hright fun y _ => S.pure trivial
  case negate =>
    intro inner scenario ih hfill
    simp only [Expr.evaluate]
    exact S.bind (ih hfill) fun v _ => S.pure trivial
  case trueNil =>
    intro scenario _
    simp only [Expr.allTrue]
    exact S.pure trivial
  case trueCons =>
    intro e rest scenario ihe ihrest hfill
    simp only [Expr.allTrue]
    refine S.bind (ihe (hfill e List.mem_cons_self)) fun v _ => ?_
    exact ite (fun _ => ihrest fun e he => hfill e (List.mem_cons_of_mem _ he))
      fun _ => S.pure trivial
  case allNil =>
    intro scenario _
    simp only [Expr.evaluateAll]
    exact S.pure trivial
  case allCons =>
    intro e rest scenario ihe ihrest hfill
    simp only [Expr.evaluateAll]
    refine S.bind (ihe (hfill e List.mem_cons_self)) fun v _ => ?_
    refine S.bind (ihrest fun e he => hfill e (List.mem_cons_of_mem _ he)) fun vs _ => ?_
    exact S.pure trivial

/-! ## Rules -/

theorem inScenario {γ : Type} {outcome : γ → m Float} {outcome' : γ → n Float} (confidence : Float)
    (salience : γ → Float) (cs : List γ) (loss : Float)
    (houtcome : ∀ c ∈ cs, S.Related (outcome c) (outcome' c)) :
    S.Related (Weighing.inScenario confidence outcome salience loss cs)
      (Weighing.inScenario confidence outcome' salience loss cs) := by
  induction cs generalizing loss with
  | nil => exact S.pure trivial
  | cons c rest ih =>
      refine S.bind (houtcome c List.mem_cons_self) fun x _ => ?_
      refine ite (fun _ => S.pure trivial) fun _ => ?_
      exact ih _ fun c hc => houtcome c (List.mem_cons_of_mem _ hc)

theorem overScenarios {σ : Type} {strength : σ → m Float} {strength' : σ → n Float} (ss : List σ)
    (doubt : Float) (hstrength : ∀ s ∈ ss, S.Related (strength s) (strength' s)) :
    S.Related (Weighing.overScenarios strength doubt ss)
      (Weighing.overScenarios strength' doubt ss) := by
  induction ss generalizing doubt with
  | nil => exact S.pure trivial
  | cons s rest ih =>
      refine S.bind (hstrength s List.mem_cons_self) fun x _ => ?_
      refine ite (fun _ => S.pure trivial) fun _ => ?_
      exact ih _ fun s hs => hstrength s (List.mem_cons_of_mem _ hs)

/-- A rule is evaluated in scenarios that fill every slot of every condition. -/
theorem ruleStrength {r : Reasoner m} {r' : Reasoner n} (hr : S.Reasoners r r') (rule : Rule)
    (domain target : Subject) :
    S.Related (World.ruleStrength r rule domain target)
      (World.ruleStrength r' rule domain target) := by
  unfold World.ruleStrength
  refine S.bind (extend _ rule.freeSlots fun s hs => ?_) fun scenarios hfilled => ?_
  · obtain ⟨c, -, hc⟩ := Rule.has_freeSlots.mp hs
    rw [Expr.has_freeSlots, Bool.and_eq_true] at hc
    exact hr.candidates hc.2
  refine overScenarios scenarios 1 fun scenario hscenario => ?_
  refine inScenario _ _ _ _ fun c hc => ?_
  refine S.bind (evaluate hr c.tree scenario fun s hs => Or.inl ?_) fun v _ => S.pure trivial
  refine hfilled scenario hscenario s ?_
  cases s with
  | domain => exact Or.inl (Scenario.contains_ofQuery_domain _ _)
  | target => exact Or.inl (Scenario.contains_ofQuery_target _ _)
  | param concept tag =>
      refine Or.inr (Rule.has_freeSlots.mpr ⟨c, hc, ?_⟩)
      rw [Expr.has_freeSlots, hs]
      rfl

/-! ## Inferences -/

variable {w : World} {ask : Recall m} {ask' : Recall n} {r : Reasoner m} {r' : Reasoner n}

variable (S) (w) (ask) (ask') (r) (r') in
/-- Two ways of answering questions belong together on everything that a world may ask. -/
def Answers : Prop :=
  ∀ q rule, w.Poses q rule →
    S.Related (ask q (World.ruleStrength r rule q.domain q.target))
      (ask' q (World.ruleStrength r' rule q.domain q.target))

theorem collect (relation : String) (domain target : Subject) (conditions : Bool)
    (rules : List (Rule × Nat)) (e : Evidence Float)
    (hask : ∀ rule place, (rule, place) ∈ rules →
      S.Related (ask ⟨relation, place, domain, target⟩ (World.ruleStrength r rule domain target))
        (ask' ⟨relation, place, domain, target⟩ (World.ruleStrength r' rule domain target))) :
    S.Related (World.collect ask r relation domain target conditions rules e)
      (World.collect ask' r' relation domain target conditions rules e) := by
  induction rules generalizing e with
  | nil => exact S.pure trivial
  | cons head rest ih =>
      obtain ⟨rule, place⟩ := head
      have hrest : ∀ e, S.Related (World.collect ask r relation domain target conditions rest e)
          (World.collect ask' r' relation domain target conditions rest e) := fun e =>
        ih e fun rule place hmem => hask rule place (List.mem_cons_of_mem _ hmem)
      refine ite (fun _ => hrest e) fun _ => ?_
      refine S.bind (hask rule place List.mem_cons_self) fun answer _ => ?_
      cases answer with
      | some x => exact hrest _
      | none => exact hrest e

/-- Only subjects that the world knows reach a rule. -/
theorem inferSubjects (hanswers : S.Answers w ask ask' r r') (domain : Subject)
    (relation : String) (target : Subject) (conditions : Bool) :
    S.Related (w.inferSubjects ask r domain relation target conditions)
      (w.inferSubjects ask' r' domain relation target conditions) := by
  unfold World.inferSubjects
  cases hrel : w.ontology.relations.get? relation with
  | none => exact S.throw (S.allowed fun _ h => nomatch h)
  | some rel =>
      refine S.bind (ofExcept (w.scoped_checkSubject domain)) fun _ hdomain => ?_
      refine S.bind (ofExcept (w.scoped_checkSubject target)) fun _ htarget => ?_
      refine ite (fun _ => S.pure trivial) fun _ => ?_
      refine ite (fun _ => S.pure trivial) fun _ => ?_
      refine S.bind (collect _ _ _ _ _ _ fun rule place hrule => ?_) fun e _ => S.pure trivial
      exact hanswers _ rule (World.poses_of_mem_zipIdx hrel hrule (World.knows_canonical hdomain)
        (World.knows_canonical htarget))

theorem inferValues (hanswers : S.Answers w ask ask' r r') (domain : Value)
    (relation : String) (target : Value) (conditions : Bool) :
    S.Related (w.inferValues ask r domain relation target conditions)
      (w.inferValues ask' r' domain relation target conditions) := by
  unfold World.inferValues
  have hrefused : S.Related (MonadExcept.throw (Error.missing (.relation relation)) : m PUnit)
      (MonadExcept.throw (Error.missing (.relation relation)) : n PUnit) :=
    S.throw (S.allowed fun _ h => nomatch h)
  cases w.subject? domain with
  | none => exact ite (fun _ => S.bind hrefused fun _ _ => S.pure trivial) fun _ => S.pure trivial
  | some d =>
      cases w.subject? target with
      | none =>
          exact ite (fun _ => S.bind hrefused fun _ _ => S.pure trivial) fun _ => S.pure trivial
      | some t =>
          have hfound := inferSubjects hanswers d relation t conditions
          exact ite (fun _ => S.bind hrefused fun _ _ => hfound) fun _ => hfound

theorem reasonerWith {infer : Inquiry m} {infer' : Inquiry n}
    (hinfer : ∀ domain relation target conditions,
      S.Related (infer domain relation target conditions)
        (infer' domain relation target conditions)) :
    S.Reasoners (w.reasonerWith infer) (w.reasonerWith infer') where
  infer := hinfer
  candidates hs := S.mono (fun _ _ => trivial) (ofExcept (World.scoped_candidates hs))
  property _ _ := S.pure trivial
  method v name args := S.mono (fun _ _ => trivial) (ofExcept (World.scoped_method v name args))
  construct concept args :=
    S.mono (fun _ _ => trivial) (ofExcept (World.scoped_construct concept args))

/-- Reasoners with equally many nested inferences left belong together, if answers do. -/
theorem reasonerAt {beyond : Inquiry m} {beyond' : Inquiry n}
    (hbeyond : ∀ domain relation target conditions,
      S.Related (beyond domain relation target conditions)
        (beyond' domain relation target conditions))
    (hanswers : ∀ r r', S.Reasoners r r' → S.Answers w ask ask' r r') (k : Nat) :
    S.Reasoners (w.reasonerAt ask beyond k) (w.reasonerAt ask' beyond' k) := by
  induction k with
  | zero => exact reasonerWith hbeyond
  | succ k ih => exact reasonerWith (inferValues (hanswers _ _ ih))

end Simulation

end Credence
