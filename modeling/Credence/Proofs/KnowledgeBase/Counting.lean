import Credence.Proofs.Condition.Product
import Credence.Proofs.Condition.Slots
import Credence.Proofs.KnowledgeBase.Discipline
import Credence.Proofs.World.Candidates

/-!
# What a count counts

A `count` ranges over the parameters that its first argument brings in and the scenario leaves open,
and goes through the assignments of these one by one.  `Tallies` says what the outcome is: the
number of assignments that pass all tests, each tried once, with the memory that the ones before it
leave.

What is left to say is which assignments there are.  A parameter has one for each registered
instance that it ranges over (`World.tallies_of_open`), a slot that is filled has one
(`World.count_of_filled`), and a relation has the product of what its open parameters range over
(`World.tallies_or_misses_relation`).  The last is found before all candidates are asked for if one
of the parameters ranges over nothing, so an unknown concept need not come up.
-/

section Counting

open Relation (TransGen)

namespace Credence

namespace Expr

/-! ## Counting scenarios -/

section Monadic

variable {m : Type → Type} [Monad m] [LawfulMonad m]

/-- To count the scenarios that pass is to try one after the other and count the passes. -/
theorem countWhere_eq_mapM (test : Scenario → m Bool) (scenarios : List Scenario) :
    countWhere test scenarios = (fun outcomes => outcomes.count true) <$> scenarios.mapM test := by
  induction scenarios with
  | nil => simp [countWhere]
  | cons s rest ih =>
      simp only [countWhere, ih, List.mapM_cons, map_bind, bind_map_left, map_pure]
      refine bind_congr fun passed => bind_congr fun outcomes => ?_
      cases passed <;> simp

theorem mapM_congr {test test' : Scenario → m Bool} {scenarios : List Scenario}
    (h : ∀ s ∈ scenarios, test s = test' s) : scenarios.mapM test = scenarios.mapM test' := by
  induction scenarios with
  | nil => rfl
  | cons s rest ih =>
      obtain ⟨hs, hrest⟩ := List.forall_mem_cons.mp h
      rw [List.mapM_cons, List.mapM_cons, hs, ih hrest]

end Monadic

/-- Tests that come out as in a table give the row of the table. -/
theorem succeeds_mapM {σ : Type} {P : σ → Prop} {test : Scenario → ExceptT Error (StateM σ) Bool}
    {truth : Scenario → Bool} {scenarios : List Scenario}
    (h : ∀ s ∈ scenarios, Succeeds P (test s) (· = truth s)) :
    Succeeds P (scenarios.mapM test) (· = scenarios.map truth) := by
  induction scenarios with
  | nil => exact succeeds_pure rfl
  | cons s rest ih =>
      obtain ⟨hs, hrest⟩ := List.forall_mem_cons.mp h
      rw [List.mapM_cons]
      refine hs.bind fun b hb => (ih hrest).bind fun bs hbs => succeeds_pure ?_
      rw [hb, hbs, List.map_cons]

theorem succeeds_allTrue {P : Memo → Prop} {r : Reasoner Deduction} {truth : Expr → Bool}
    {tests : List Expr} {s : Scenario}
    (h : ∀ e ∈ tests, Succeeds P (e.evaluate r s) fun v => v.truthy = truth e) :
    Succeeds P (allTrue r tests s) (· = tests.all truth) := by
  induction tests with
  | nil => exact succeeds_pure rfl
  | cons e rest ih =>
      obtain ⟨he, hrest⟩ := List.forall_mem_cons.mp h
      rw [allTrue]
      refine he.bind fun v hv => ?_
      rw [hv, List.all_cons]
      cases truth e with
      | true => exact ih hrest
      | false => exact succeeds_pure rfl

/-! ## Tallies -/

/-- A computation gives the number of assignments for which all tests are true.  It tries each
assignment once, in their order; and if the tests come out as in a table, in every memory with some
property that they keep, it gives the number that the table has. -/
structure Tallies (r : Reasoner Deduction) (tests : List Expr) (assignments : List Scenario)
    (x : Deduction Value) : Prop where
  run : x = do
    let outcomes ← assignments.mapM (allTrue r tests)
    return .ofInt (outcomes.count true)
  table (P : Memo → Prop) (truth : Expr → Scenario → Bool)
    (h : ∀ s ∈ assignments, ∀ e ∈ tests,
      Succeeds P (e.evaluate r s) fun v => v.truthy = truth e s) :
    Succeeds P x (· = .ofInt (assignments.countP fun s => tests.all (truth · s)))

variable {r : Reasoner Deduction} {tests filters : List Expr} {assignments : List Scenario}
  {scenario : Scenario} {x : Deduction Value}

theorem tallies_of_run (hrun : x = do
      let outcomes ← assignments.mapM (allTrue r tests)
      return .ofInt (outcomes.count true)) : Tallies r tests assignments x where
  run := hrun
  table P truth h := by
    rw [hrun]
    refine (succeeds_mapM fun s hs => succeeds_allTrue (h s hs)).bind fun outcomes houtcomes => ?_
    refine succeeds_pure ?_
    rw [houtcomes, List.count_eq_countP, List.countP_map]
    congr 2
    refine List.countP_congr fun s _ => ?_
    simp

/-- What a count comes to once its scenarios are there. -/
theorem tallies_countWhere {test : Scenario → Deduction Bool}
    (htest : ∀ s ∈ assignments, test s = allTrue r tests s) :
    Tallies r tests assignments (do
      let n ← countWhere test assignments
      return .ofInt n) := by
  refine tallies_of_run ?_
  rw [countWhere_eq_mapM, mapM_congr htest, bind_map_left]

/-- A count over a parameter that all its scenarios fill. -/
theorem tallies_count_slot {k : Slot} (filters : List Expr)
    (hextend : scenario.extend r.candidates (slot k).introducedSlots = pure assignments)
    (hfills : ∀ s ∈ assignments, s.contains k = true) :
    Tallies r filters assignments ((builtin .count (slot k :: filters)).evaluate r scenario) := by
  rw [evaluate, hextend, pure_bind]
  refine tallies_countWhere fun s hs => ?_
  obtain ⟨v, hv⟩ := Table.contains_iff.mp (hfills s hs)
  simp only [lookUp, hv, pure_bind, if_true]

/-- A count over a relation, which is the first test. -/
theorem tallies_count_relation {name : String} {domain target : Expr} {negated : Bool}
    (hextend : scenario.extend r.candidates
      (relation name domain target negated).introducedSlots = pure assignments) :
    Tallies r (relation name domain target negated :: filters) assignments
      ((builtin .count (relation name domain target negated :: filters)).evaluate r scenario) := by
  rw [evaluate, hextend, pure_bind]
  refine tallies_countWhere fun s _ => ?_
  simp only [pure_bind]
  rw [allTrue]

end Expr

/-! ## The scenarios of a count -/

namespace World

variable (w : World) (infer : Inquiry Deduction)

/-- What a scenario can be extended to if it is to fill the parameters of a tree. -/
def assignments (scenario : Scenario) (e : Expr) : List Scenario :=
  Scenario.product w.range (scenario.openSlots e.freeSlots) scenario

/-- A parameter has an unknown concept, and a computation says so. -/
def Misses {α : Type} (params : List Slot) (x : Deduction α) : Prop :=
  ∃ concept tag, .param concept tag ∈ params ∧ w.ontology.hasConcept concept = false ∧
    x = throw (.missing (.concept concept))

variable {w infer} {scenario : Scenario} {filters : List Expr}

theorem Misses.bind {α β : Type} {params : List Slot} {x : Deduction α}
    (h : w.Misses params x) (f : α → Deduction β) : w.Misses params (x >>= f) := by
  obtain ⟨concept, tag, hmem, hmissing, rfl⟩ := h
  exact ⟨concept, tag, hmem, hmissing, rfl⟩

theorem candidates_reasonerWith (w : World) (infer : Inquiry Deduction) (concept : String)
    (tag : Option String) :
    (w.reasonerWith infer).candidates (.param concept tag) =
      if w.ontology.hasConcept concept then pure (w.range (.param concept tag))
      else throw (.missing (.concept concept)) := by
  show MonadExcept.ofExcept (w.candidates (.param concept tag)) = _
  rw [candidates_param]
  split <;> rfl

/-- Filling parameters gives the product of what they range over, unless one is asked for whose
concept is unknown. -/
theorem fillAll_eq_or_misses (infer : Inquiry Deduction) {params : List Slot}
    (hfree : ∀ k ∈ params, k.isFree = true) (scenarios : List Scenario) :
    Scenario.fillAll (w.reasonerWith infer).candidates params scenarios =
        pure (scenarios.flatMap (Scenario.product w.range params)) ∨
      w.Misses params (Scenario.fillAll (w.reasonerWith infer).candidates params scenarios) := by
  induction params generalizing scenarios with
  | nil => exact .inl (Scenario.fillAll_eq w.range (List.forall_mem_nil _) scenarios)
  | cons k rest ih =>
      obtain ⟨hk, hrest⟩ := List.forall_mem_cons.mp hfree
      cases k with
      | domain | target => exact absurd hk Bool.false_ne_true
      | param concept tag =>
          have hcandidates := candidates_reasonerWith w infer concept tag
          split at hcandidates
          · rw [Scenario.fillAll_cons w.range hcandidates, ← Scenario.flatMap_product_fill]
            split
            · rename_i hempty
              -- the other parameters are not asked for, and need not have a known concept
              rw [List.isEmpty_iff.mp hempty, List.flatMap_nil]
              exact .inl rfl
            · refine (ih hrest _).imp_right fun h => ?_
              obtain ⟨c, t, hmem, h⟩ := h
              exact ⟨c, t, List.mem_cons_of_mem _ hmem, h⟩
          · rename_i hunknown
            refine .inr ⟨concept, tag, List.mem_cons_self, Bool.eq_false_iff.mpr hunknown, ?_⟩
            rw [Scenario.fillAll, hcandidates]
            rfl

theorem isFree_of_mem_openSlots {e : Expr} {k : Slot} (h : k ∈ scenario.openSlots e.freeSlots) :
    k.isFree = true := by
  have hhas := (Scenario.mem_openSlots.mp h).1
  rw [Expr.has_freeSlots, Bool.and_eq_true] at hhas
  exact hhas.2

variable {concept name : String} {tag : Option String} {domain target : Expr} {negated : Bool}

/-- A count over a relation: the relation is the first test of each assignment. -/
theorem tallies_or_misses_relation :
    w.Misses (scenario.openSlots (Expr.relation name domain target negated).freeSlots)
        ((Expr.builtin .count (.relation name domain target negated :: filters)).evaluate
          (w.reasonerWith infer) scenario) ∨
      Expr.Tallies (w.reasonerWith infer) (.relation name domain target negated :: filters)
        (w.assignments scenario (.relation name domain target negated))
        ((Expr.builtin .count (.relation name domain target negated :: filters)).evaluate
          (w.reasonerWith infer) scenario) := by
  obtain hrun | hmisses := fillAll_eq_or_misses (w := w) infer (fun k hk =>
    isFree_of_mem_openSlots (e := .relation name domain target negated) hk) [scenario]
  · rw [List.flatMap_singleton] at hrun
    exact .inr (Expr.tallies_count_relation hrun)
  · rw [Expr.evaluate]
    exact .inl (Misses.bind hmisses _)

/-- The only slot that a parameter brings in is its own. -/
theorem openSlots_param (hopen : scenario.get? (.param concept tag) = none) :
    scenario.openSlots (Expr.slot (.param concept tag)).introducedSlots = [.param concept tag] := by
  have hcontains : scenario.contains (.param concept tag) = false := by
    rw [Table.contains, hopen]
    rfl
  show [Slot.param concept tag].filter (fun k => !scenario.contains k) = _
  rw [List.filter_singleton, hcontains]
  rfl

theorem extend_param_of_open (hopen : scenario.get? (.param concept tag) = none) :
    scenario.extend (w.reasonerWith infer).candidates
        (Expr.slot (.param concept tag)).introducedSlots =
      if w.ontology.hasConcept concept then
        pure ((w.places concept tag.isSome).map fun p =>
          scenario.insert (.param concept tag) (.inst p.2.key))
      else throw (.missing (.concept concept)) := by
  have hcandidates := candidates_reasonerWith w infer concept tag
  rw [Scenario.extend, ← Scenario.openSlots, openSlots_param hopen]
  split at hcandidates
  · rename_i hknown
    rw [if_pos hknown, Scenario.fillAll_eq w.range (by simpa using hcandidates),
      List.flatMap_singleton, Scenario.product_singleton, range, List.map_map]
    rfl
  · rename_i hunknown
    rw [if_neg hunknown, Scenario.fillAll, hcandidates]
    rfl

/-- A slot that is filled already is not filled again. -/
theorem extend_slot_of_filled {k : Slot} {v : Value} (hfilled : scenario.get? k = some v) :
    scenario.extend (w.reasonerWith infer).candidates (Expr.slot k).introducedSlots =
      pure [scenario] := by
  have hnone : scenario.openSlots (Expr.slot k).introducedSlots = [] := by
    refine List.eq_nil_iff_forall_not_mem.mpr fun s hs => ?_
    obtain ⟨hhas, hopen⟩ := Scenario.mem_openSlots.mp hs
    rw [Expr.introducedSlots_slot, Bool.and_eq_true, decide_eq_true_eq] at hhas
    rw [hhas.1, hfilled] at hopen
    nomatch hopen
  rw [Scenario.extend, ← Scenario.openSlots, hnone]
  rfl

/-- A count over a parameter that is filled already looks at the filters once. -/
theorem count_of_filled {k : Slot} {v : Value} (hfilled : scenario.get? k = some v) :
    (Expr.builtin .count (.slot k :: filters)).evaluate (w.reasonerWith infer) scenario = do
      let passed ← Expr.allTrue (w.reasonerWith infer) filters scenario
      return .ofInt (if passed then 1 else 0) := by
  have hfills : ∀ s ∈ [scenario], s.contains k = true := fun s hs => by
    rw [List.mem_singleton.mp hs]
    exact Table.contains_iff.mpr ⟨v, hfilled⟩
  rw [(Expr.tallies_count_slot filters (extend_slot_of_filled hfilled) hfills).run]
  simp only [List.mapM_cons, List.mapM_nil, bind_assoc, pure_bind]
  refine bind_congr fun passed => ?_
  cases passed <;> rfl

/-- A count over a parameter that is not filled looks at each registered instance once. -/
theorem tallies_of_open (hopen : scenario.get? (.param concept tag) = none)
    (hknown : w.ontology.hasConcept concept = true) :
    Expr.Tallies (w.reasonerWith infer) filters
      ((w.places concept tag.isSome).map fun p =>
        scenario.insert (.param concept tag) (.inst p.2.key))
      ((Expr.builtin .count (.slot (.param concept tag) :: filters)).evaluate
        (w.reasonerWith infer) scenario) := by
  refine Expr.tallies_count_slot filters ?_ fun s hs => ?_
  · rw [extend_param_of_open hopen, if_pos hknown]
  · obtain ⟨p, -, rfl⟩ := List.mem_map.mp hs
    simp

theorem count_of_unknown (hopen : scenario.get? (.param concept tag) = none)
    (hunknown : w.ontology.hasConcept concept = false) :
    (Expr.builtin .count (.slot (.param concept tag) :: filters)).evaluate
      (w.reasonerWith infer) scenario = throw (.missing (.concept concept)) := by
  rw [Expr.evaluate, extend_param_of_open hopen, hunknown]
  rfl

/-- The assignments of a tree in an orderly world are different from each other. -/
theorem Orderly.nodup_assignments (hw : w.Orderly) (e : Expr) :
    (w.assignments scenario e).Nodup :=
  Scenario.nodup_product (Scenario.nodup_openSlots scenario _) fun k _ => hw.nodup_range k

/-- A `count` counts each assignment once, whatever inference the filters rest on.

Over a parameter that the scenario leaves open, it counts the registered instances of the concept,
and of what lies below it for a parameter with a tag, for which every filter is true; each is
registered under a key of its own, and no key is counted twice however many chains lead to it.  Over
a slot that is filled it gives one or zero by the filters alone.  Over a relation it counts the ways
to fill the open parameters of the relation, each from what it ranges over, for which the relation
and all filters are true.  Only an unknown concept of a parameter is an error of the count
itself. -/
theorem count_counts_once (w : World) (infer : Inquiry Deduction) (scenario : Scenario)
    (filters : List Expr) :
    let r := w.reasonerWith infer
    let count (counted : Expr) : Deduction Value :=
      (Expr.builtin .count (counted :: filters)).evaluate r scenario
    (∀ concept tag, scenario.get? (.param concept tag) = none →
      if w.ontology.hasConcept concept then
        Expr.Tallies r filters
            ((w.places concept tag.isSome).map fun p =>
              scenario.insert (.param concept tag) (.inst p.2.key))
            (count (.slot (.param concept tag))) ∧
          ((w.places concept tag.isSome).map (·.1)).Nodup ∧
          (∀ key i, (key, i) ∈ w.places concept tag.isSome ↔ w.registry.get? key = some i ∧
            (key.concept = concept ∨
              tag.isSome = true ∧ TransGen w.ontology.Child concept key.concept)) ∧
          (w.Orderly → ∀ p ∈ w.places concept tag.isSome, p.2.key = p.1)
      else count (.slot (.param concept tag)) = throw (.missing (.concept concept))) ∧
    (∀ k v, scenario.get? k = some v → count (.slot k) = do
      let passed ← Expr.allTrue r filters scenario
      return .ofInt (if passed then 1 else 0)) ∧
    (∀ concept tag, w.ontology.hasConcept concept = true →
      r.candidates (.param concept tag) = pure (w.range (.param concept tag))) ∧
    ∀ name domain target negated,
      let related := Expr.relation name domain target negated
      (w.Misses (scenario.openSlots related.freeSlots) (count related) ∨
        Expr.Tallies r (related :: filters) (w.assignments scenario related) (count related)) ∧
      (∀ s, s ∈ w.assignments scenario related ↔
        Scenario.Extends w.range scenario related.freeSlots s) ∧
      (w.Orderly → (w.assignments scenario related).Nodup) := by
  intro r count
  refine ⟨fun concept tag hopen => ?_, fun k v hfilled => count_of_filled hfilled,
    fun concept tag hknown => (candidates_reasonerWith w infer concept tag).trans (if_pos hknown),
    fun name domain target negated => ⟨tallies_or_misses_relation,
      fun s => Scenario.mem_product_openSlots, fun hw => hw.nodup_assignments _⟩⟩
  split
  · rename_i hknown
    exact ⟨tallies_of_open hopen hknown, nodup_keys_places, fun key i => mem_places,
      fun hw p hp => hw.key_of_mem_places hp⟩
  · rename_i hunknown
    exact count_of_unknown hopen (Bool.eq_false_iff.mpr hunknown)

end World

/-! ## A concept with two parents -/

namespace KnowledgeBase

/-- An amphibian is a car and a boat, and both are vehicles.  There is one of them. -/
def amphibious : Agenda :=
  let concept (name : String) (parents : List String) : Operation Unit :=
    .mutation (.edit (.addConcept { name, category := .dynamic, parents := KeySet.ofList parents }))
  let wheels : Properties := Table.ofList [("wheels", .number 4)]
  [⟨_, concept "Vehicle" []⟩, ⟨_, concept "Car" ["Vehicle"]⟩, ⟨_, concept "Boat" ["Vehicle"]⟩,
    ⟨_, concept "Amphibian" ["Boat", "Car"]⟩,
    ⟨_, .mutation (.createInstance "Amphibian" (some "duck") wheels)⟩]

/-- The amphibian counts once among the vehicles with wheels, though two chains lead to it.  Where
the vehicle is given, the wheels alone decide. -/
theorem count_counts_once_amphibious :
    let w := (after { supply := ⟨0, 0⟩ } amphibious).toWorld
    let vehicle : Slot := .param "Vehicle" (some "a")
    let wheels := Expr.property (.slot vehicle) "wheels"
    let boat : Scenario := (∅ : Scenario).insert vehicle (.text "boat")
    TransGen w.ontology.Child "Vehicle" "Amphibian" ∧
      (exec ((Expr.builtin .count [.slot vehicle, wheels]).evaluate w.reasoner ∅) ∅).1 =
        .ok (.ofInt 1) ∧
      (exec ((Expr.builtin .count [.slot vehicle, wheels]).evaluate w.reasoner boat) ∅).1 =
        .ok (.ofInt 0) ∧
      (w.assignments ∅ (.relation "passes" (.slot .domain) (.slot vehicle) false)).Nodup := by
  intro w vehicle wheels boat
  have horderly : w.Orderly :=
    after_of_preserves (P := fun kb => kb.toWorld.Orderly) orderly_step amphibious
      World.orderly_empty
  have hplaces : w.places "Vehicle" true = [(⟨"Amphibian", "duck"⟩,
      ⟨⟨"Amphibian", "duck"⟩, Table.ofList [("wheels", .number 4)]⟩)] := by rfl
  have hcount (scenario : Scenario) := World.count_counts_once w
    (w.inferValues World.remembered
      (w.reasonerAt World.remembered (fun _ _ _ _ => return .unknown) w.depthBound))
    scenario [wheels]
  obtain ⟨hopen, -, -, hrelation⟩ := hcount ∅
  obtain ⟨-, hfilled, -⟩ := hcount boat
  obtain ⟨htally, -, hmem, -⟩ := by
    have h := hopen "Vehicle" (some "a") rfl
    rwa [if_pos (by decide +kernel)] at h
  have hwheels : ∀ s ∈ (w.places "Vehicle" true).map fun p =>
      (∅ : Scenario).insert vehicle (.inst p.2.key), ∀ e ∈ [wheels],
      Succeeds (· = ∅) (e.evaluate w.reasoner s) fun v => v.truthy = true := by
    rw [hplaces]
    intro s hs e he memo hmemo
    obtain rfl := List.mem_singleton.mp hs
    obtain rfl := List.mem_singleton.mp he
    exact ⟨.number 4, memo, rfl, by decide +kernel, hmemo⟩
  refine ⟨?_, ?_, ?_, (hrelation "passes" (.slot .domain) (.slot vehicle) false).2.2 horderly⟩
  · have hduck : (⟨"Amphibian", "duck"⟩, _) ∈ w.places "Vehicle" true :=
      hplaces ▸ List.mem_singleton.mpr rfl
    exact (((hmem _ _).mp hduck).2.resolve_left (by decide)).2
  · obtain ⟨x, memo, hrun, hx, -⟩ := htally.table (· = ∅) (fun _ _ => true) hwheels ∅ rfl
    rw [show w.places "Vehicle" (some "a").isSome = _ from hplaces, List.map_singleton,
      List.countP_singleton] at hx
    rw [hx] at hrun
    exact congrArg Prod.fst hrun
  · have hfails : exec (Expr.allTrue w.reasoner [wheels] boat) ∅ = (.ok false, ∅) := by rfl
    have hcounted := hfilled vehicle (.text "boat") (by simp [boat])
    exact (congrArg (fun x => (exec x ∅).1) hcounted).trans
      (congrArg Prod.fst (exec_bind_ok hfails))

end KnowledgeBase

end Credence

end Counting
