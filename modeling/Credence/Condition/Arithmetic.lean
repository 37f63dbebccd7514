import Credence.Condition.Expr
import Credence.Value.Comparison

/-!
# Operators on values

What the operators and functions of conditions do to values.  Booleans count as one and zero, texts
are joined by `+`, dates are subtracted in days; everything else, a division by zero and a result
that is not finite give null.
-/

namespace Credence

namespace Value

/-- A number as a value, null unless it is finite. -/
def finite (x : Float) : Value := if Decimal.isFinite x then number x else null

def ofTruth (b : Bool) : Value := number (indicator b)

def ofNumber? : Option Float → Value
  | some x => number x
  | none => null

end Value

/-- How near two numbers are on a scale: one for equal numbers, falling to zero at the distance of
the scale.  Without a positive scale only equal numbers are near. -/
def approx (a b scale : Float) : Float :=
  let distance := (a - b).abs
  if scale ≤ 0 then Value.indicator (distance == 0)
  else if distance ≤ scale then 1 - distance / scale
  else 0

namespace Operator

/-- What an operator of arithmetic does to two numbers; none for a division by zero. -/
def onNumbers? (op : Operator) (a b : Float) : Option Float :=
  match op with
  | add => some (a + b)
  | sub => some (a - b)
  | mul => some (a * b)
  | div => if b == 0 then none else some (a / b)
  | floorDiv => if b == 0 then none else some (a / b).floor
  | mod => if b == 0 then none else some (a - b * (a / b).floor)
  | _ => some (Float.pow a b)

/-- What an operator of arithmetic does to two values. -/
def arithmetic (op : Operator) : Value → Value → Value
  | .text s, .text t => if op = add then .text (s ++ t) else .null
  | .date d, .date e => if op = sub then .ofInt (e.daysUntil d) else .null
  | a, b =>
    match a.numeric?, b.numeric? with
    | some x, some y => ((op.onNumbers? x y).map Value.finite).getD .null
    | _, _ => .null

/-- Whether an order passes a comparison. -/
def passes (op : Operator) (o : Ordering) : Bool :=
  match op with
  | gt => o.isGT
  | lt => o.isLT
  | ge => o.isGE
  | _ => o.isLE

/-- What an operator does to two values.  `and` and `or` are decided before. -/
def apply (op : Operator) (a b : Value) : Value :=
  match op with
  | eq => .bool (a.looseEq b)
  | ne => .bool (!a.looseEq b)
  | is => .bool (a.identical b)
  | isNot => .bool (!a.identical b)
  | gt | lt | ge | le => ((a.compare? b).map fun o => Value.bool (op.passes o)).getD .null
  | op => op.arithmetic a b

end Operator

end Credence
