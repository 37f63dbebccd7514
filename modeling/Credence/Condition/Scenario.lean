import Credence.Condition.Slot
import Credence.Value.Basic

/-!
# Scenarios

A scenario fills slots with values.  `extend` gives every way of filling further slots from their
candidates: it goes through the slots in order, and through the candidates of each in theirs, so the
scenarios come in lexicographic order.
-/

namespace Credence

/-- Values for slots. -/
abbrev Scenario := Table Slot Value

namespace Scenario

/-- The scenario of a query: its domain and its target. -/
def ofQuery (domain target : Value) : Scenario :=
  ((∅ : Scenario).insert .domain domain).insert .target target

/-- Every scenario that fills one more slot with one of its candidates. -/
def fill (slot : Slot) (candidates : List Value) (scenarios : List Scenario) : List Scenario :=
  scenarios.flatMap fun s => candidates.map fun v => s.insert slot v

variable {m : Type → Type} [Monad m]

/-- Fills one slot after the other in every scenario.  Once there is no scenario left, no more
candidates are asked for. -/
def fillAll (candidates : Slot → m (List Value)) : List Slot → List Scenario → m (List Scenario)
  | [], scenarios => return scenarios
  | slot :: rest, scenarios => do
    let filled := fill slot (← candidates slot) scenarios
    if filled.isEmpty then return [] else fillAll candidates rest filled

/-- Every scenario that fills the slots which `base` leaves open. -/
def extend (candidates : Slot → m (List Value)) (base : Scenario) (slots : SlotSet) :
    m (List Scenario) :=
  fillAll candidates (slots.toList.filter fun s => !base.contains s) [base]

end Scenario

end Credence
