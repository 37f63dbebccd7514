import Credence.Condition.Evaluation
import Credence.Proofs.Condition.Fidelity
import Credence.Proofs.Condition.Slots
import Credence.Proofs.Formula.Variables
import Mathlib.Logic.Relation

/-!
# Trees that are safe to evaluate

An evaluation takes the shape of a tree for granted: it reaches for the arguments of a function by
their places, expects a relation or a parameter where `facts` and `count` look for one, and takes
zero for a letter of a formula that has no value.  `guarded` is the same evaluation with a guard at
each of these places, which does whatever `mishap` says if the shape is not as expected.

The grammar sees to it that no guard is ever needed.  Every part of a parsed tree is `Formed`, a
formed tree is `Shaped`, and a guarded evaluation of a formed tree is the evaluation itself, by
induction on the tree and its lists of arguments, whatever a mishap would do.
-/

namespace Credence.Expr

variable {numbers : Float → Prop} {part whole e : Expr} {args : List Expr}

/-! ## The shape of a node -/

/-- One tree stands somewhere in another, or is all of it. -/
def Within : Expr → Expr → Prop := Relation.ReflTransGen fun part whole => part ∈ whole.parts

/-- The arguments of a node are those that its evaluation reaches for. -/
def Shaped : Expr → Prop
  | builtin .is args | builtin .isNot args | builtin .eq args | builtin .eqNot args =>
    args.length = 2
  | builtin .approx args => args.length = 3
  | builtin .facts args =>
    ∃ name domain target negated, args = [relation name domain target negated]
  | builtin .count args => ∃ counted filters, args = counted :: filters ∧
    ((∃ concept tag, counted = slot (.param concept tag)) ∨
      ∃ name domain target negated, counted = relation name domain target negated)
  | formula args body _ => args.length = body.vars.length ∧ body.vars.Nodup ∧
    Formula.FirstAppearances body.letters body.vars
  | _ => True

theorem shaped_of_takes {function : Builtin} (h : Grammar.takes function args = true) :
    (builtin function args).Shaped := by
  match function, args, h with
  | .is, _, h | .isNot, _, h | .eq, _, h | .eqNot, _, h | .approx, _, h => exact beq_iff_eq.mp h
  | .facts, [relation name domain target negated], _ => exact ⟨name, domain, target, negated, rfl⟩
  | .count, slot (.param concept tag) :: filters, _ =>
      exact ⟨_, filters, rfl, .inl ⟨concept, tag, rfl⟩⟩
  | .count, relation name domain target negated :: filters, _ =>
      exact ⟨_, filters, rfl, .inr ⟨name, domain, target, negated, rfl⟩⟩

theorem Formed.shaped (h : e.Formed numbers) : e.Shaped := by
  cases e with
  | builtin function args => exact shaped_of_takes h.1
  | formula args body source =>
      have hvars := body.firstAppearances_vars
      exact ⟨h.2.1.symm, hvars.nodup, hvars⟩
  | _ => trivial

/-! ## Parts -/

theorem formed_of_mem (hmem : e ∈ args) (h : AllFormed numbers args) : e.Formed numbers := by
  induction args with
  | nil => nomatch hmem
  | cons first rest ih =>
      obtain rfl | hmem := List.mem_cons.mp hmem
      · exact h.1
      · exact ih hmem h.2

theorem Formed.of_mem_parts (h : whole.Formed numbers) (hpart : part ∈ whole.parts) :
    part.Formed numbers := by
  cases whole with
  | slot s | number x | text s => nomatch hpart
  | relation name domain target negated => exact formed_of_mem hpart ⟨h.2.1, h.2.2, trivial⟩
  | property subject key => exact formed_of_mem hpart ⟨h.2, trivial⟩
  | method subject name args => exact formed_of_mem hpart h.2
  | construct concept args => exact formed_of_mem hpart h.2
  | builtin function args => exact formed_of_mem hpart h.2
  | formula args body source => exact formed_of_mem hpart h.2.2
  | binary op left right => exact formed_of_mem hpart ⟨h.1, h.2, trivial⟩
  | negate inner => exact formed_of_mem hpart ⟨h, trivial⟩

theorem Formed.of_within (h : whole.Formed numbers) (hpart : part.Within whole) :
    part.Formed numbers := by
  induction hpart with
  | refl => exact h
  | tail _ hstep ih => exact ih (h.of_mem_parts hstep)

/-! ## Evaluation with guards -/

/-- What an evaluation may find missing. -/
inductive Mishap where
  /-- A function has no argument at a place. -/
  | absent (function : Builtin) (place : Nat)
  /-- A function is asked about a tree that is not of the kind it looks for. -/
  | target (function : Builtin) (tree : Expr)
  /-- A formula has a letter without a value. -/
  | unbound (body : Formula)

section Guards

variable {m : Type → Type} [Monad m] (mishap : Mishap → m Value)

/-- The value of the argument at a place. -/
def argument (function : Builtin) (runs : List (m Value)) (place : Nat) : m Value :=
  match runs[place]? with
  | some run => run
  | none => mishap (.absent function place)

/-- The value of a function of two arguments. -/
def compareTwo (function : Builtin) (test : Value → Value → Bool) (runs : List (m Value)) :
    m Value := do
  let x ← argument mishap function runs 0
  let y ← argument mishap function runs 1
  return .ofTruth (test x y)

/-- How near two arguments are, on the scale of a third. -/
def approxThree (runs : List (m Value)) : m Value := do
  let x ← argument mishap .approx runs 0
  let y ← argument mishap .approx runs 1
  let z ← argument mishap .approx runs 2
  return .ofNumber? do return approx (← x.numeric?) (← y.numeric?) (← z.numeric?)

/-- The value of a formula whose variables get the values one by one, as far as there are any. -/
def bindInOrder (body : Formula) (values : List Value) : m Value :=
  match (body.vars.zip values).mapM fun b => b.2.numeric?.map fun x => (b.1, x) with
  | none => return .null
  | some bindings =>
    match body.evaluate? bindings with
    | some x => return .finite x
    | none => mishap (.unbound body)

/-- The values of computations, in order. -/
def valuesInOrder : List (m Value) → m (List Value)
  | [] => return []
  | run :: rest => do
    let v ← run
    let vs ← valuesInOrder rest
    return v :: vs

/-- Whether all computations give something true; none is run after one that does not. -/
def allTruthy : List (m Value) → m Bool
  | [] => return true
  | run :: rest => do
    let v ← run
    if v.truthy then allTruthy rest else return false

variable [MonadExceptOf Error m]

mutual

/-- The value of a condition in a scenario, with a guard wherever its shape is relied on. -/
def guarded (r : Reasoner m) : Expr → Scenario → m Value
  | slot s, scenario => lookUp scenario s
  | relation name domain target negated, scenario => do
    let d ← guarded r domain scenario
    let t ← guarded r target scenario
    return ofVerdict (← r.infer d name t true) negated
  | property subject key, scenario => do
    let v ← guarded r subject scenario
    if v.isNull then return .null else r.property v key
  | method subject name args, scenario => do
    let v ← guarded r subject scenario
    let values ← valuesInOrder (runs r args scenario)
    r.method v name values
  | construct concept args, scenario => do
    let values ← valuesInOrder (runs r args scenario)
    r.construct concept values
  | number x, _ => return .number x
  | text s, _ => return .text s
  | builtin .facts [], _ => mishap (.absent .facts 0)
  | builtin .facts (relation name domain target negated :: _), scenario => do
    let d ← guarded r domain scenario
    let t ← guarded r target scenario
    return ofVerdict (← r.infer d name t false) negated
  | builtin .facts (other :: _), _ => mishap (.target .facts other)
  | builtin .is args, scenario =>
    compareTwo mishap .is (fun x y => x.identical y) (runs r args scenario)
  | builtin .isNot args, scenario =>
    compareTwo mishap .isNot (fun x y => !x.identical y) (runs r args scenario)
  | builtin .eq args, scenario =>
    compareTwo mishap .eq (fun x y => x.looseEq y) (runs r args scenario)
  | builtin .eqNot args, scenario =>
    compareTwo mishap .eqNot (fun x y => !x.looseEq y) (runs r args scenario)
  | builtin .approx args, scenario => approxThree mishap (runs r args scenario)
  | builtin .count [], _ => mishap (.absent .count 0)
  | builtin .count (counted :: filters), scenario => do
    let scenarios ← scenario.extend r.candidates counted.introducedSlots
    let n ← countWhere
      (fun s => do
        let holds ← match counted with
          | .slot k => do
            let _ ← lookUp (m := m) s k
            pure true
          | .relation _ _ _ _ => do
            let v ← guarded r counted s
            pure v.truthy
          | other => do
            let v ← mishap (.target .count other)
            pure v.truthy
        if holds then allTruthy (runs r filters s) else return false)
      scenarios
    return .ofInt n
  | formula args body _, scenario => do
    bindInOrder mishap body (← valuesInOrder (runs r args scenario))
  | binary op left right, scenario => do
    let x ← guarded r left scenario
    match op with
    | .and => if x.truthy then guarded r right scenario else return x
    | .or => if x.truthy then return x else guarded r right scenario
    | op => do
      let y ← guarded r right scenario
      return op.apply x y
  | negate inner, scenario => do
    let v ← guarded r inner scenario
    return .ofNumber? (v.numeric?.map fun x => -x)

/-- The evaluations of trees. -/
def runs (r : Reasoner m) : List Expr → Scenario → List (m Value)
  | [], _ => []
  | e :: rest, scenario => guarded r e scenario :: runs r rest scenario

end

end Guards

/-! ## No guard is needed -/

section Formulas

variable {m : Type → Type} [Monad m] {mishap : Mishap → m Value}

theorem length_of_mapM_numeric {values : List Value} {xs : List Float}
    (h : values.mapM Value.numeric? = some xs) : xs.length = values.length := by
  induction values generalizing xs with
  | nil => rw [← Option.some.inj h]; rfl
  | cons v values ih =>
      rw [List.mapM_cons] at h
      obtain ⟨x, -, h⟩ := Option.bind_eq_some_iff.mp h
      obtain ⟨ys, hys, h⟩ := Option.bind_eq_some_iff.mp h
      rw [← Option.some.inj h, List.length_cons, List.length_cons, ih hys]

/-- Letters with as many values have numbers for values if all the values are numbers. -/
theorem mapM_numeric_zip {cs : List Char} {values : List Value} (h : cs.length = values.length) :
    ((cs.zip values).mapM fun b => b.2.numeric?.map fun x => (b.1, x)) =
      (values.mapM Value.numeric?).map cs.zip := by
  induction cs generalizing values with
  | nil => rw [List.eq_nil_of_length_eq_zero h.symm]; rfl
  | cons c cs ih =>
      cases values with
      | nil => nomatch h
      | cons v values =>
          rw [List.zip_cons_cons, List.mapM_cons, List.mapM_cons, ih (Nat.succ.inj h)]
          cases v.numeric? with
          | none => rfl
          | some x => cases values.mapM Value.numeric? <;> rfl

/-- With a value for each variable, all letters are bound. -/
theorem bindInOrder_eq {body : Formula} {values : List Value}
    (h : body.vars.length = values.length) :
    bindInOrder mishap body values = pure (formulaValue body values) := by
  unfold bindInOrder formulaValue
  rw [mapM_numeric_zip h]
  cases hnumbers : values.mapM Value.numeric? with
  | none => rfl
  | some xs =>
      rw [Option.map_some]
      dsimp only
      rw [Formula.evaluate?_zip (h.trans (length_of_mapM_numeric hnumbers).symm)]

end Formulas

section Evaluation

variable {m : Type → Type} [Monad m] [MonadExceptOf Error m] {mishap : Mishap → m Value}
  {r : Reasoner m}

/-- What is made of the values of trees depends on lists of that many values only. -/
theorem evaluateAll_bind_congr [LawfulMonad m] {β : Type} {f g : List Value → m β}
    {scenario : Scenario} (h : ∀ vs, args.length = vs.length → f vs = g vs) :
    evaluateAll r args scenario >>= f = evaluateAll r args scenario >>= g := by
  induction args generalizing f g with
  | nil => simp only [evaluateAll, pure_bind, h [] rfl]
  | cons e rest ih =>
      simp only [evaluateAll, bind_assoc, pure_bind]
      refine bind_congr fun v => ih fun vs hvs => h (v :: vs) ?_
      rw [List.length_cons, hvs, List.length_cons]

theorem valuesInOrder_map (args : List Expr) (scenario : Scenario) :
    valuesInOrder (args.map fun e => evaluate r e scenario) = evaluateAll r args scenario := by
  induction args with
  | nil => rfl
  | cons e rest ih => rw [List.map_cons, valuesInOrder, evaluateAll, ih]

theorem allTruthy_map (args : List Expr) (scenario : Scenario) :
    allTruthy (args.map fun e => evaluate r e scenario) = allTrue r args scenario := by
  induction args with
  | nil => rfl
  | cons e rest ih => rw [List.map_cons, allTruthy, allTrue, ih]

mutual

/-- On a formed tree the guards change nothing, whatever a mishap would do. -/
theorem guarded_eq [LawfulMonad m] : ∀ (e : Expr), e.Formed numbers → ∀ scenario,
    guarded mishap r e scenario = evaluate r e scenario
  | slot s, _, scenario => by rw [guarded, evaluate]
  | relation name domain target negated, h, scenario => by
      rw [guarded, evaluate, guarded_eq domain h.2.1, guarded_eq target h.2.2]
  | property subject key, h, scenario => by rw [guarded, evaluate, guarded_eq subject h.2]
  | method subject name args, h, scenario => by
      rw [guarded, evaluate, guarded_eq subject h.2.1, runs_eq args h.2.2, valuesInOrder_map]
  | construct concept args, h, scenario => by
      rw [guarded, evaluate, runs_eq args h.2, valuesInOrder_map]
  | number x, _, scenario => by rw [guarded, evaluate]
  | text s, _, scenario => by rw [guarded, evaluate]
  | builtin .facts args, h, scenario => by
      -- the arguments that `facts` takes leave one case
      match args, h.1, h.2 with
      | [relation name domain target negated], _, hargs =>
          rw [guarded, evaluate, guarded_eq domain hargs.1.2.1, guarded_eq target hargs.1.2.2]
  | builtin .is args, h, scenario | builtin .isNot args, h, scenario
  | builtin .eq args, h, scenario | builtin .eqNot args, h, scenario => by
      rw [guarded, runs_eq args h.2]
      obtain ⟨a, b, rfl⟩ := List.length_eq_two.mp (shaped_of_takes h.1)
      rw [evaluate]
      rfl
  | builtin .approx args, h, scenario => by
      rw [guarded, runs_eq args h.2]
      obtain ⟨a, b, c, rfl⟩ := List.length_eq_three.mp (shaped_of_takes h.1)
      rw [evaluate]
      rfl
  | builtin .count args, h, scenario => by
      match args, h.1, h.2 with
      | slot (.param concept tag) :: filters, _, hargs =>
          simp only [guarded, evaluate, runs_eq filters hargs.2, allTruthy_map]
      | relation name domain target negated :: filters, _, hargs =>
          simp only [guarded, evaluate, guarded_eq domain hargs.1.2.1,
            guarded_eq target hargs.1.2.2, runs_eq filters hargs.2, allTruthy_map]
  | formula args body source, h, scenario => by
      rw [guarded, evaluate, runs_eq args h.2.2, valuesInOrder_map]
      exact evaluateAll_bind_congr fun vs hvs => bindInOrder_eq (h.2.1.trans hvs)
  | binary op left right, h, scenario => by
      rw [guarded, evaluate, guarded_eq left h.1]
      refine bind_congr fun x => ?_
      cases op <;> simp only [guarded_eq right h.2]
  | negate inner, h, scenario => by
      rw [guarded, evaluate, guarded_eq inner h]

theorem runs_eq [LawfulMonad m] : ∀ args : List Expr, AllFormed numbers args → ∀ scenario,
    runs mishap r args scenario = args.map fun e => evaluate r e scenario
  | [], _, _ => rfl
  | e :: rest, h, scenario => by
      rw [runs, guarded_eq e h.1, runs_eq rest h.2, List.map_cons]

end

end Evaluation

/-- What is parsed is safe to evaluate.  Every node of it has the arguments that its evaluation
reaches for, a formula as many as it has variables; and with any reasoner, in any scenario and
whatever is done when an argument, a relation or the value of a letter is missing, that is not done:
the guarded evaluation is the evaluation itself. -/
theorem safe_of_parse {logic : String} {e : Expr} (h : parse logic = .ok e) :
    (∀ part : Expr, part.Within e → part.Shaped) ∧
      ∀ {m : Type → Type} [Monad m] [LawfulMonad m] [MonadExceptOf Error m]
        (mishap : Mishap → m Value) (r : Reasoner m) (scenario : Scenario),
        guarded mishap r e scenario = evaluate r e scenario := by
  obtain ⟨ts, hspells, -⟩ := spells_of_parse h
  have hformed : e.Formed Decimal.IsRead := hspells.formed
  exact ⟨fun part hpart => (hformed.of_within hpart).shaped,
    fun mishap r scenario => guarded_eq e hformed scenario⟩

/-- A count with a comparison and a formula for filters. -/
def countedCities : Expr :=
  .builtin .count [.slot (.param "City" none), .builtin .is [.slot .domain, .slot .target],
    .formula [.slot .domain] (.combine .div (.var 'a') (.var 'a')) "a/a"]

theorem safe_of_parse_countedCities :
    parse " count ( #City , is ( % , @ ) , f ( % , \"a/a\" ) )" = .ok countedCities ∧
      countedCities.Shaped ∧
      ∀ (mishap : Mishap → Except Error Value) (r : Reasoner (Except Error)) (scenario : Scenario),
        guarded mishap r countedCities scenario = evaluate r countedCities scenario := by
  have hlabel : Grammar.IsLabel "City" := ⟨by decide, List.all_eq_true.mp (by decide)⟩
  have hwell : countedCities.WellFormed :=
    ⟨rfl, ⟨hlabel, by simp⟩, ⟨rfl, trivial, trivial, trivial⟩,
      ⟨by rfl, by decide, trivial, trivial⟩, trivial⟩
  have hlaid : Laid (countedCities.tokens weaker)
      " count ( #City , is ( % , @ ) , f ( % , \"a/a\" ) )".toList := by
    refine Eq.mp (congrArg (Laid (countedCities.tokens weaker)) ?_) (laid_spaced _)
    decide +kernel
  have hparse := parse_of_laid
    ((spells_tokens countedCities hwell (suits_weaker _)).weaken (Nat.zero_le _))
    (row_tokens weaker countedCities hwell) hlaid
  obtain ⟨hshaped, hguarded⟩ := safe_of_parse hparse
  exact ⟨hparse, hshaped countedCities .refl, hguarded⟩

end Credence.Expr
