import Credence.Proofs.Deduction.Balance

/-!
# What the rules say about a pair

A query puts together what the rules of a relation say, and forgets the parts on the way.  Here they
are kept: `World.testimony` is the list of the rules that were heard, each with its strength, and
the query is a function of it (`World.infer_eq_testimony`).

What a rule without conditions says depends on its confidence only (`Rule.plainStrength`), and so
does every answer that is remembered of one (`Faithful`).  Hence such rules are heard in full and
say the same in every query about a pair, whatever else is asked on the way
(`World.unconditional_of_hear`).
-/

namespace Credence

/-- The rules that were heard about a pair, each with its strength. -/
abbrev Testimony := List (Rule × Float)

namespace Testimony

variable {K : Type}

/-- What was heard, with the strengths read as numbers of another type. -/
def items (strength : Float → K) (ts : Testimony) : List (K × Bool) :=
  ts.map fun t => (strength t.2, t.1.supporting)

variable [OfNat K 0] [OfNat K 1] [LT K] [DecidableLT K] [Sub K] [Mul K]

/-- What a query comes to after what was heard; a pair that is excluded is known not to be
related. -/
def verdict (strength : Float → K) : Option Testimony → Verdict K
  | none => .known 0
  | some ts => (Evidence.ofList (ts.items strength)).conclude

end Testimony

namespace World

/-- Asks the rules of a relation about a pair, and keeps what each of them says. -/
def hear (r : Reasoner Deduction) (relation : String) (domain target : Subject)
    (conditions : Bool) : List (Rule × Nat) → Deduction Testimony
  | [] => return []
  | (rule, place) :: rest =>
    if !rule.applies domain target || (!conditions && rule.isConditional) then
      hear r relation domain target conditions rest
    else do
      let answer ← remembered ⟨relation, place, domain, target⟩ (ruleStrength r rule domain target)
      let others ← hear r relation domain target conditions rest
      return (answer.map fun x => (rule, x)).toList ++ others

variable (w : World)

/-- What a query asks about: a relation, and two subjects as they stand for themselves; none if these
are excluded as a pair. -/
def pairing (domain : Subject) (relation : String) (target : Subject) :
    Except Error (Option (Relation × Subject × Subject)) := do
  match w.ontology.relations.get? relation with
  | none => throw (.missing (.relation relation))
  | some rel =>
    w.checkSubject domain
    w.checkSubject target
    let domain := w.canonical domain
    let target := w.canonical target
    if rel.distinct ∧ domain = target then return none
    if !rel.between domain.conceptName target.conceptName then return none
    return some (rel, domain, target)

/-- What the rules of a relation say about two subjects, none if these are excluded as a pair. -/
def testimony (domain : Subject) (relation : String) (target : Subject) (conditions : Bool) :
    Deduction (Option Testimony) := do
  match ← MonadExcept.ofExcept (w.pairing domain relation target) with
  | none => return none
  | some (rel, domain, target) =>
    some <$> hear w.reasoner relation domain target conditions rel.rules.zipIdx

/-! ## A query is a function of what it hears -/

theorem collect_eq_hear (r : Reasoner Deduction) (relation : String) (domain target : Subject)
    (conditions : Bool) (rules : List (Rule × Nat)) (e : Evidence Float) :
    collect remembered r relation domain target conditions rules e =
      (fun ts : Testimony => (ts.items id).foldl (fun e i => e.add i.1 i.2) e) <$>
        hear r relation domain target conditions rules := by
  induction rules generalizing e with
  | nil => rfl
  | cons head rest ih =>
      obtain ⟨rule, place⟩ := head
      unfold collect hear
      split
      · exact ih e
      · simp only [map_bind, bind_pure_comp, Functor.map_map]
        refine bind_congr fun answer => ?_
        cases answer with
        | none => exact ih e
        | some x => exact ih (e.add x rule.supporting)

theorem infer_eq_pairing (domain : Subject) (relation : String) (target : Subject)
    (conditions : Bool) :
    w.infer domain relation target conditions = (do
      match ← MonadExcept.ofExcept (w.pairing domain relation target) with
      | none => return .known 0
      | some (rel, domain, target) =>
        let e ← collect remembered w.reasoner relation domain target conditions rel.rules.zipIdx
          .none
        return e.conclude) := by
  unfold infer inferSubjects pairing
  cases w.ontology.relations.get? relation with
  | none => rfl
  | some rel =>
      cases w.checkSubject domain with
      | error e => rfl
      | ok _ =>
          cases w.checkSubject target with
          | error e => rfl
          | ok _ =>
              by_cases hself : rel.distinct ∧ w.canonical domain = w.canonical target
              · simp only [if_pos hself]
                rfl
              · simp only [if_neg hself]
                split <;> rfl

/-- A query comes to a verdict on what it hears. -/
theorem infer_eq_testimony (domain : Subject) (relation : String) (target : Subject)
    (conditions : Bool) :
    w.infer domain relation target conditions =
      Testimony.verdict id <$> w.testimony domain relation target conditions := by
  rw [infer_eq_pairing, testimony, map_bind]
  refine bind_congr fun pair => ?_
  cases pair with
  | none => rfl
  | some pair =>
      obtain ⟨rel, domain, target⟩ := pair
      simp only [collect_eq_hear, bind_pure_comp, Functor.map_map]
      rfl

end World

/-! ## Rules without conditions -/

/-- The strength of a rule without conditions, on any pair. -/
def Rule.plainStrength (rule : Rule) : Float :=
  let doubt := 1 * (1 - rule.confidence * (1 - 0))
  if doubt ≤ 0 then 1 else 1 - doubt

theorem World.ruleStrength_of_unconditional {rule : Rule} (h : rule.isConditional = false)
    (r : Reasoner Deduction) (domain target : Subject) :
    ruleStrength r rule domain target = pure rule.plainStrength := by
  have hconditions : rule.conditions = [] := by
    rwa [Rule.isConditional, Bool.not_eq_false', List.isEmpty_iff] at h
  have hextend (base : Scenario) : base.extend r.candidates rule.freeSlots = pure [base] := by
    rw [Rule.freeSlots, hconditions]
    rfl
  unfold ruleStrength
  simp only [hextend, hconditions, Weighing.overScenarios, Weighing.inScenario, pure_bind,
    Rule.plainStrength]
  split <;> rfl

/-- What is remembered of a rule without conditions is what it says on any pair. -/
def Faithful (w : World) (memo : Memo) : Prop :=
  ∀ q x rule, memo.get? q = some (.done x) → w.Poses q rule → rule.isConditional = false →
    x = rule.plainStrength

namespace Faithful

variable {w : World} {memo : Memo}

theorem empty (w : World) : Faithful w ∅ := fun _ _ _ h => nomatch h

theorem insert_running (h : Faithful w memo) (q : Question) :
    Faithful w (memo.insert q .running) :=
  fun p x rule hp => h p x rule (Memo.done_of_insert_running hp)

theorem erase (h : Faithful w memo) (q : Question) : Faithful w (memo.erase q) :=
  fun p x rule hp => h p x rule (Memo.done_of_erase hp)

theorem insert_done {q : Question} {rule : Rule} {x : Float} (h : Faithful w memo)
    (hq : w.Poses q rule) (hx : rule.isConditional = false → x = rule.plainStrength) :
    Faithful w (memo.insert q (.done x)) := by
  intro p y rule' hp hposes hplain
  rcases Memo.done_of_insert_done hp with ⟨rfl, rfl⟩ | hold
  · obtain rfl := hq.unique hposes
    exact hx hplain
  · exact h p y rule' hold hposes hplain

end Faithful

/-- The computations that keep a memory faithful. -/
def trusting (w : World) : Simulation Deduction Deduction :=
  steady (fun before after => Faithful w before → Faithful w after) (fun _ h => h)
    fun hab hbc h => hbc (hab h)

theorem trusting_answers {w : World} (r r' : Reasoner Deduction)
    (hr : (trusting w).Reasoners r r') :
    (trusting w).Answers w World.remembered World.remembered r r' := by
  refine fun q rule hq memo => ⟨fun h => ?_, fun _ _ => trivial⟩
  rw [World.exec_remembered]
  cases hget : memo.get? q with
  | some progress => cases progress <;> exact h
  | none =>
      have hcompute := (Simulation.ruleStrength hr rule q.domain q.target
        (memo.insert q .running)).1 (h.insert_running q)
      have hplain : rule.isConditional = false →
          exec (World.ruleStrength r rule q.domain q.target) (memo.insert q .running) =
            (.ok rule.plainStrength, memo.insert q .running) := fun hrule => by
        rw [World.ruleStrength_of_unconditional hrule, exec_pure]
      dsimp only
      generalize exec (World.ruleStrength r rule q.domain q.target) (memo.insert q .running) = run
        at hcompute hplain
      obtain ⟨outcome, memo'⟩ := run
      cases outcome with
      | error e => exact hcompute.erase q
      | ok x => exact hcompute.insert_done hq fun hrule =>
          Except.ok.inj (congrArg Prod.fst (hplain hrule))

theorem trusting_reasonerAt (w : World) (n : Nat) :
    (trusting w).Reasoners (w.reasonerAt World.remembered (fun _ _ _ _ => return .unknown) n)
      (w.reasonerAt World.remembered (fun _ _ _ _ => return .unknown) n) :=
  Simulation.reasonerAt (fun _ _ _ _ => (trusting w).pure trivial) trusting_answers n

/-! ## Rules without conditions are heard in full -/

namespace World

variable {w : World} {memo memo' : Memo} {q : Question} {rule : Rule}

/-- A question that is answered leaves the memory idle and faithful.  A rule without conditions is
never left out, and says what it always says. -/
theorem of_answer (hidle : Idle memo) (hfaithful : Faithful w memo) (hq : w.Poses q rule)
    {answer : Option Float}
    (hrun : exec (remembered q (ruleStrength w.reasoner rule q.domain q.target)) memo =
      (.ok answer, memo')) :
    Idle memo' ∧ Faithful w memo' ∧
      (rule.isConditional = false → answer = some rule.plainStrength) := by
  have hbalanced := (balancing_answers _ _ (balancing_reasonerAt w (w.depthBound + 1)) q rule hq
    memo).1
  have hkept := (trusting_answers _ _ (trusting_reasonerAt w (w.depthBound + 1)) q rule hq memo).1
    hfaithful
  obtain rfl : _ = memo' := congrArg Prod.snd hrun
  refine ⟨hidle.balanced hbalanced, hkept, fun hrule => ?_⟩
  rw [exec_remembered, ruleStrength_of_unconditional hrule, exec_pure] at hrun
  cases hget : memo.get? q with
  | none =>
      rw [hget] at hrun
      exact (Except.ok.inj (congrArg Prod.fst hrun)).symm
  | some progress =>
      rw [hget] at hrun
      cases progress with
      | running => exact absurd hget (hidle q)
      | done x =>
          rw [← hfaithful q x rule hget hq hrule]
          exact (Except.ok.inj (congrArg Prod.fst hrun)).symm

/-- What the rules without conditions say about a pair. -/
def unconditional (domain target : Subject) (rules : List Rule) : Testimony :=
  (rules.filter fun rule => rule.applies domain target && !rule.isConditional).map fun rule =>
    (rule, rule.plainStrength)

theorem unconditional_cons (domain target : Subject) (rule : Rule) (rest : List Rule) :
    unconditional domain target (rule :: rest) =
      (if rule.applies domain target && !rule.isConditional then [(rule, rule.plainStrength)]
        else []) ++ unconditional domain target rest := by
  unfold unconditional
  rw [List.filter_cons]
  split <;> rfl

/-- The rules without conditions are heard as if no others were there.  The induction goes along the
rules; each question leaves the memory idle and faithful for the next. -/
theorem unconditional_of_hear {relation : String} {domain target : Subject} (conditions : Bool)
    {rules : List (Rule × Nat)}
    (hposes : ∀ rule place, (rule, place) ∈ rules →
      w.Poses ⟨relation, place, domain, target⟩ rule)
    (hidle : Idle memo) (hfaithful : Faithful w memo) {ts : Testimony}
    (hts : exec (hear w.reasoner relation domain target conditions rules) memo = (.ok ts, memo')) :
    ts.filter (fun t => !t.1.isConditional) = unconditional domain target (rules.map (·.1)) := by
  induction rules generalizing memo ts with
  | nil =>
      cases hts
      rfl
  | cons head rest ih =>
      obtain ⟨rule, place⟩ := head
      have hrest : ∀ rule place, (rule, place) ∈ rest →
          w.Poses ⟨relation, place, domain, target⟩ rule := fun rule place hmem =>
        hposes rule place (List.mem_cons_of_mem _ hmem)
      rw [List.map_cons, unconditional_cons]
      unfold hear at hts
      split at hts
      · rename_i hskip
        have hunheard : (rule.applies domain target && !rule.isConditional) = false := by
          rw [Bool.or_eq_true, Bool.and_eq_true, Bool.not_eq_true'] at hskip
          rcases hskip with happlies | ⟨-, hrule⟩
          · rw [happlies, Bool.false_and]
          · rw [hrule, Bool.not_true, Bool.and_false]
        rw [hunheard, if_neg Bool.false_ne_true, List.nil_append]
        exact ih hrest hidle hfaithful hts
      · rename_i hasked
        have happlies : rule.applies domain target = true := by
          rw [Bool.not_eq_true, Bool.or_eq_false_iff, Bool.not_eq_false'] at hasked
          exact hasked.1
        obtain ⟨answer, memo₁, hasking, hts⟩ := exists_of_exec_bind hts
        obtain ⟨others, memo₂, hhearing, hts⟩ := exists_of_exec_bind hts
        cases hts
        obtain ⟨hidle', hfaithful', hplain⟩ :=
          of_answer hidle hfaithful (hposes rule place List.mem_cons_self) hasking
        have hothers := ih hrest hidle' hfaithful' hhearing
        rw [List.filter_append, hothers, happlies, Bool.true_and]
        congr 1
        cases hrule : rule.isConditional with
        | true => cases answer <;> simp [hrule]
        | false => simp [hplain hrule, hrule]

/-- Without conditional rules only the others are heard. -/
theorem isConditional_of_hear (r : Reasoner Deduction) {relation : String}
    {domain target : Subject} {rules : List (Rule × Nat)} {ts : Testimony}
    (hts : exec (hear r relation domain target false rules) memo = (.ok ts, memo')) :
    ∀ t ∈ ts, t.1.isConditional = false := by
  induction rules generalizing memo ts with
  | nil =>
      cases hts
      exact fun t ht => absurd ht List.not_mem_nil
  | cons head rest ih =>
      obtain ⟨rule, place⟩ := head
      unfold hear at hts
      split at hts
      · exact ih hts
      · rename_i hasked
        have hrule : rule.isConditional = false := by
          rw [Bool.not_eq_true, Bool.or_eq_false_iff, Bool.not_false, Bool.true_and] at hasked
          exact hasked.2
        obtain ⟨answer, memo₁, -, hts⟩ := exists_of_exec_bind hts
        obtain ⟨others, memo₂, hhearing, hts⟩ := exists_of_exec_bind hts
        cases hts
        intro t ht
        rcases List.mem_append.mp ht with ht | ht
        · rw [Option.mem_toList, Option.map_eq_some_iff] at ht
          obtain ⟨x, -, rfl⟩ := ht
          exact hrule
        · exact ih hhearing t ht

/-- What is asked about exists. -/
theorem knows_of_pairing {domain target domain' target' : Subject} {relation : String}
    {rel : Relation} (h : w.pairing domain relation target = .ok (some (rel, domain', target'))) :
    w.ontology.relations.get? relation = some rel ∧ w.Knows domain' ∧ w.Knows target' := by
  unfold pairing at h
  cases hrel : w.ontology.relations.get? relation with
  | none =>
      rw [hrel] at h
      nomatch h
  | some found =>
      rw [hrel] at h
      cases hdomain : w.checkSubject domain with
      | error e =>
          rw [hdomain] at h
          nomatch h
      | ok _ =>
          cases htarget : w.checkSubject target with
          | error e =>
              rw [hdomain, htarget] at h
              nomatch h
          | ok _ =>
              rw [hdomain, htarget] at h
              change (if _ then _ else if _ then _ else _) = _ at h
              split at h
              · nomatch h
              · split at h
                · nomatch h
                · cases h
                  exact ⟨rfl, knows_canonical hdomain, knows_canonical htarget⟩

/-- A query without conditional rules hears what the full query hears, but for the conditional
rules. -/
theorem testimony_facts {domain target : Subject} {relation : String}
    {facts full : Option Testimony} {memo₁ memo₂ : Memo}
    (hfacts : exec (w.testimony domain relation target false) ∅ = (.ok facts, memo₁))
    (hfull : exec (w.testimony domain relation target true) ∅ = (.ok full, memo₂)) :
    facts = full.map fun ts => ts.filter fun t => !t.1.isConditional := by
  unfold testimony at hfacts hfull
  cases hpair : w.pairing domain relation target with
  | error e =>
      rw [hpair] at hfacts
      nomatch hfacts
  | ok pair =>
      rw [hpair] at hfacts hfull
      cases pair with
      | none =>
          cases hfacts
          cases hfull
          rfl
      | some pair =>
          obtain ⟨rel, domain', target'⟩ := pair
          obtain ⟨hrel, hdomain, htarget⟩ := knows_of_pairing hpair
          have hposes : ∀ rule place, (rule, place) ∈ rel.rules.zipIdx →
              w.Poses ⟨relation, place, domain', target'⟩ rule := fun rule place hmem =>
            poses_of_mem_zipIdx hrel hmem hdomain htarget
          obtain ⟨us, hus, rfl⟩ := exists_of_exec_map hfacts
          obtain ⟨ts, hts, rfl⟩ := exists_of_exec_map hfull
          have hplain : us.filter (fun t => !t.1.isConditional) = us :=
            List.filter_eq_self.mpr fun t ht => by
              rw [isConditional_of_hear w.reasoner hus t ht, Bool.not_false]
          rw [Option.map_some, unconditional_of_hear true hposes idle_empty (.empty w) hts,
            ← unconditional_of_hear false hposes idle_empty (.empty w) hus, hplain]

end World

end Credence
