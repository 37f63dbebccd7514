import Credence.Condition.Arithmetic
import Credence.Condition.Scenario
import Credence.Error

/-!
# Evaluating conditions

A condition is evaluated in a scenario.  What depends on the knowledge there is, such as whether a
relation holds or which instances a concept has, is asked of a `Reasoner`.

`and` and `or` give one of their operands and look at the second one only if they need it.  A
relation of which nothing is known is null, negated or not.
-/

namespace Credence

/-- What an evaluation asks of the knowledge there is. -/
structure Reasoner (m : Type → Type) where
  /-- The verdict on a relation between two values, with or without conditional rules. -/
  infer : Value → String → Value → Bool → m Finding
  /-- The values that a parameter ranges over. -/
  candidates : Slot → m (List Value)
  property : Value → String → m Value
  method : Value → String → List Value → m Value
  /-- What a concept gives when it is called. -/
  construct : String → List Value → m Value

namespace Expr

/-- The value of a verdict; a negated relation has the complement of the confidence. -/
def ofVerdict (v : Finding) (negated : Bool) : Value :=
  match v with
  | .known c => .number (if negated then 1 - c else c)
  | .unknown => .null

variable {m : Type → Type} [Monad m]

/-- The number of scenarios that pass a test. -/
def countWhere (test : Scenario → m Bool) : List Scenario → m Nat
  | [] => return 0
  | s :: rest => do
    let passed ← test s
    let n ← countWhere test rest
    return if passed then n + 1 else n

variable [MonadExceptOf Error m]

def lookUp (scenario : Scenario) (s : Slot) : m Value :=
  match scenario.get? s with
  | some v => return v
  | none => throw (.unbound s)

/-- The value of a formula, null unless all its variables have numbers. -/
def formulaValue (body : Formula) (values : List Value) : Value :=
  match values.mapM Value.numeric? with
  | some xs => .finite (body.evaluate (body.vars.zip xs))
  | none => .null

mutual

/-- The value of a condition in a scenario. -/
def evaluate (r : Reasoner m) : Expr → Scenario → m Value
  | slot s, scenario => lookUp scenario s
  | relation name domain target negated, scenario => do
    let d ← evaluate r domain scenario
    let t ← evaluate r target scenario
    return ofVerdict (← r.infer d name t true) negated
  | property subject key, scenario => do
    let v ← evaluate r subject scenario
    if v.isNull then return .null else r.property v key
  | method subject name args, scenario => do
    let v ← evaluate r subject scenario
    let values ← evaluateAll r args scenario
    r.method v name values
  | construct concept args, scenario => do
    let values ← evaluateAll r args scenario
    r.construct concept values
  | number x, _ => return .number x
  | text s, _ => return .text s
  | builtin .facts [relation name domain target negated], scenario => do
    let d ← evaluate r domain scenario
    let t ← evaluate r target scenario
    return ofVerdict (← r.infer d name t false) negated
  | builtin .is [a, b], scenario => do
    let x ← evaluate r a scenario
    let y ← evaluate r b scenario
    return .ofTruth (x.identical y)
  | builtin .isNot [a, b], scenario => do
    let x ← evaluate r a scenario
    let y ← evaluate r b scenario
    return .ofTruth (!x.identical y)
  | builtin .eq [a, b], scenario => do
    let x ← evaluate r a scenario
    let y ← evaluate r b scenario
    return .ofTruth (x.looseEq y)
  | builtin .eqNot [a, b], scenario => do
    let x ← evaluate r a scenario
    let y ← evaluate r b scenario
    return .ofTruth (!x.looseEq y)
  | builtin .approx [a, b, c], scenario => do
    let x ← evaluate r a scenario
    let y ← evaluate r b scenario
    let z ← evaluate r c scenario
    return .ofNumber? do return approx (← x.numeric?) (← y.numeric?) (← z.numeric?)
  | builtin .count (counted :: filters), scenario => do
    let scenarios ← scenario.extend r.candidates counted.introducedSlots
    let n ← countWhere
      (fun s => do
        let holds ← match counted with
          | .slot k => do
            let _ ← lookUp (m := m) s k
            pure true
          | .relation _ _ _ _ => do
            let v ← evaluate r counted s
            pure v.truthy
          -- anything else ranges over nothing and is not looked at
          | _ => pure true
        if holds then allTrue r filters s else return false)
      scenarios
    return .ofInt n
  -- no text is read as a call with other arguments
  | builtin _ _, _ => return .null
  | formula args body _, scenario => do
    return formulaValue body (← evaluateAll r args scenario)
  | binary op left right, scenario => do
    let x ← evaluate r left scenario
    match op with
    | .and => if x.truthy then evaluate r right scenario else return x
    | .or => if x.truthy then return x else evaluate r right scenario
    | op => do
      let y ← evaluate r right scenario
      return op.apply x y
  | negate inner, scenario => do
    let v ← evaluate r inner scenario
    return .ofNumber? (v.numeric?.map fun x => -x)

/-- The values of conditions, in order. -/
def evaluateAll (r : Reasoner m) : List Expr → Scenario → m (List Value)
  | [], _ => return []
  | e :: rest, scenario => do
    let v ← evaluate r e scenario
    let vs ← evaluateAll r rest scenario
    return v :: vs

/-- Whether all conditions are true; none is evaluated after one that is not. -/
def allTrue (r : Reasoner m) : List Expr → Scenario → m Bool
  | [], _ => return true
  | e :: rest, scenario => do
    let v ← evaluate r e scenario
    if v.truthy then allTrue r rest scenario else return false

end

end Expr

end Credence
