/-!
# Where a run ends

`partitionPoint p l` finds by halving where the items of a list stop passing a test.  On a list
whose passing items all stand before the others it is their number; on any other list it is the
place that halving arrives at.
-/

namespace Credence

/-- Narrows the place down to the interval of a given size after `base`; the first item of the
interval is the only one that may still fail. -/
def bisect (p : Nat → Bool) (base size : Nat) : Nat :=
  if size ≤ 1 then base
  else
    let middle := base + size / 2
    bisect p (if p middle then middle else base) (size - size / 2)
termination_by size
decreasing_by omega

/-- The place where the items of a list stop passing a test. -/
def partitionPoint {α : Type} (p : α → Bool) (l : List α) : Nat :=
  let passes (i : Nat) : Bool := (l[i]?).any p
  let base := bisect passes 0 l.length
  if passes base then base + 1 else base

/-- Inserts an item where the items of a list stop passing a test. -/
def insertWhere {α : Type} (p : α → Bool) (a : α) (l : List α) : List α :=
  let place := partitionPoint p l
  l.take place ++ a :: l.drop place

end Credence
