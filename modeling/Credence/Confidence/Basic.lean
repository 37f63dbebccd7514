import Credence.Decimal.Layout

/-!
# Confidence

A query comes to a *verdict*: a confidence between zero and one that the relation holds, or unknown
if no rule had anything to say.  To know that a relation does not hold is something else than not to
know.

`Evidence` puts the strengths of rules together.  The supporting ones leave the product of their
complements as doubt, the opposing ones scale the result by the product of theirs; opposing rules
alone give that product itself.

The functions are stated for any type of numbers.
-/

namespace Credence

/-- What a query comes to. -/
inductive Verdict (α : Type) where
  | known (confidence : α)
  | unknown
deriving DecidableEq, Repr, Inhabited

/-- What a query comes to in the number type that the library computes with. -/
abbrev Finding := Verdict Float

def Verdict.confidence? {α : Type} : Verdict α → Option α
  | known c => some c
  | unknown => none

def Verdict.isKnown {α : Type} : Verdict α → Bool
  | known _ => true
  | unknown => false

/-- The written form of a verdict, with two places. -/
def Verdict.toText : Finding → String
  | known c => "⟨" ++ Decimal.twoPlaces c ++ "⟩"
  | unknown => "⟨?⟩"

section Numbers

variable {α : Type} [OfNat α 0] [OfNat α 1] [LT α] [DecidableLT α]

/-- A number held between zero and one.  A number that does not compare stays as it is. -/
def clamp (x : α) : α := if x < 0 then 0 else if 1 < x then 1 else x

end Numbers

/-- What the rules have said so far. -/
structure Evidence (α : Type) where
  /-- The product of the complements of the supporting strengths. -/
  doubt : α
  /-- The product of the complements of the opposing strengths. -/
  scepticism : α
  /-- Whether a rule has supported. -/
  supported : Bool
  /-- Whether a rule has opposed. -/
  opposed : Bool
deriving Repr

namespace Evidence

variable {α : Type} [OfNat α 1]

def none : Evidence α := ⟨1, 1, false, false⟩

section Adding

variable [OfNat α 0] [LT α] [DecidableLT α] [Sub α] [Mul α]

/-- Adds the strength of a rule, held between zero and one. -/
def add (e : Evidence α) (strength : α) (supporting : Bool) : Evidence α :=
  let rest := 1 - clamp strength
  if supporting then { e with doubt := e.doubt * rest, supported := true }
  else { e with scepticism := e.scepticism * rest, opposed := true }

def ofList (items : List (α × Bool)) : Evidence α :=
  items.foldl (fun e i => e.add i.1 i.2) none

end Adding

/-- What the rules come to together. -/
def conclude [Sub α] [Mul α] (e : Evidence α) : Verdict α :=
  if e.supported then .known ((1 - e.doubt) * e.scepticism)
  else if e.opposed then .known e.scepticism
  else .unknown

end Evidence

end Credence
