import Credence.Collection.Bisection
import Credence.Condition.Parser
import Credence.Error

/-!
# Rules

A rule says, with a confidence, that a relation holds, or does not hold, between the members of two
sides.  Each side has *bases*, the concepts and instances that were named, and a *view*, the
concepts that the bases stand for.  Conditions may weaken the rule; each has a salience, the share
of the confidence that is lost when the condition fails.
-/

namespace Credence

/-- One side of a rule. -/
structure Members where
  /-- The concepts and instances that were named. -/
  bases : KeySet Subject := ∅
  /-- The concepts that they stand for. -/
  view : NameSet := ∅
deriving Inhabited

namespace Members

/-- Whether a concept or an instance of it is a base. -/
def names (m : Members) (concept : String) : Bool :=
  m.bases.toList.any fun s => s.conceptName = concept

def conceptBases (m : Members) : List String :=
  m.bases.toList.filterMap fun
    | .concept name => some name
    | .inst _ => none

/-- Whether a subject is a member: a concept in the view, or an instance that is a base or whose
concept is in the view. -/
def has (m : Members) (s : Subject) : Bool :=
  match s with
  | .concept name => m.view.has name
  | .inst key => m.bases.has s || m.view.has key.concept

end Members

/-- A condition of a rule. -/
structure Condition where
  logic : String
  /-- The share of the confidence that is lost when the condition fails. -/
  salience : Float
  /-- What the text says. -/
  tree : Expr
deriving Inhabited

namespace Condition

/-- Reads a condition.  The salience is looked at first and must lie between zero and one. -/
def compile (logic : String) (salience : Float) : Except Error Condition :=
  if 0 ≤ salience ∧ salience ≤ 1 then
    match Expr.parse logic with
    | .ok tree => .ok ⟨logic, salience, tree⟩
    | .error reason => .error (.malformed logic reason)
  else .error (.violation (.salience salience logic))

def mentionsTarget (c : Condition) : Bool := c.tree.mentionsTarget

end Condition

/-- A weighted statement of a relation. -/
structure Rule where
  id : RuleId
  domains : Members := {}
  targets : Members := {}
  confidence : Float
  /-- Whether the rule speaks for the relation; if not, it speaks against it. -/
  supporting : Bool := true
  /-- The conditions, most salient first. -/
  conditions : List Condition := []
deriving Inhabited

namespace Rule

def members (r : Rule) : Side → Members
  | .domain => r.domains
  | .target => r.targets

def modifyMembers (r : Rule) (side : Side) (f : Members → Members) : Rule :=
  match side with
  | .domain => { r with domains := f r.domains }
  | .target => { r with targets := f r.targets }

def isConditional (r : Rule) : Bool := !r.conditions.isEmpty

def mentionsTarget (r : Rule) : Bool := r.conditions.any Condition.mentionsTarget

/-- The parameters of all conditions. -/
def freeSlots (r : Rule) : SlotSet :=
  r.conditions.foldl (fun s c => s.union c.tree.freeSlots) ∅

/-- Whether a rule is about a pair of subjects. -/
def applies (r : Rule) (domain target : Subject) : Bool :=
  r.domains.has domain && r.targets.has target

/-- Puts a condition behind those that are at least as salient. -/
def insertCondition (r : Rule) (c : Condition) : Rule :=
  { r with conditions := insertWhere (fun d => c.salience ≤ d.salience) c r.conditions }

def sideText (m : Members) : String := ", ".intercalate (m.bases.toList.map Subject.toText)

def toText (r : Rule) : String :=
  (if r.supporting then "+" else "−") ++ "\x7b" ++ sideText r.domains ++ "\x7d → \x7b"
    ++ sideText r.targets ++ "\x7d @ " ++ Decimal.twoPlaces r.confidence
    ++ String.join (r.conditions.map fun c =>
      " [" ++ c.logic ++ " ×" ++ Decimal.plain c.salience ++ "]")

/-- A rule without conditions, its confidence held between zero and one. -/
def simple (id : RuleId) (confidence : Float) (domains targets : List Subject) (supporting : Bool) :
    Rule where
  id := id
  domains := { bases := KeySet.ofList domains }
  targets := { bases := KeySet.ofList targets }
  confidence := clamp confidence
  supporting := supporting

end Rule

end Credence
