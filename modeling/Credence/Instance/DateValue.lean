import Credence.Error

/-!
# Dates in conditions

The properties and methods of a date, and the dates that are made from values.
-/

namespace Credence.Date

/-- A property of a date, null if dates have no such property; the week begins on Monday with 0. -/
def property (d : Date) (key : String) : Value :=
  match key with
  | "year" => .ofInt d.year
  | "month" => .ofInt d.month
  | "day" => .ofInt d.day
  | "weekday" => .ofInt d.weekday
  | _ => .null

/-- A method of a date.  An argument that stands for no date gives null. -/
def method (d : Date) (name : String) (args : List Value) : Except Error Value :=
  let against (f : Date → Value) (v : Value) : Except Error Value :=
    .ok ((v.asDate?.map f).getD .null)
  match name, args with
  | "year", [] | "month", [] | "day", [] | "weekday", [] => .ok (d.property name)
  | "before", [v] => against (fun e => .bool (compare d e == .lt)) v
  | "after", [v] => against (fun e => .bool (compare d e == .gt)) v
  | "daysUntil", [v] => against (fun e => .ofInt (d.daysUntil e)) v
  | _, _ => .error (.unsupported (.dateMethod name args.length))

/-- The date of a year, a month and a day given as numbers, which are cut to integers. -/
def ofNumbers? (year month day : Float) : Option Date :=
  of? year.toInt32.toInt month.toUInt32.toNat day.toUInt32.toNat

/-- The date that arguments give: one value that stands for a date, or year, month and day. -/
def ofValues? : List Value → Option Date
  | [v] => v.asDate?
  | [y, m, d] => do ofNumbers? (← y.asNumber?) (← m.asNumber?) (← d.asNumber?)
  | _ => none

end Credence.Date
