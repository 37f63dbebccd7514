/-!
# The strength of a rule

In one scenario a rule loses the salience of every condition to the degree that the condition fails:
its confidence is scaled by one minus the sum of `(1 - outcome) * salience`, and is zero as soon as
that sum reaches one.  Over several scenarios the strengths combine like independent pieces of
evidence: one minus the product of their complements.

Outcomes are computed in a monad, one after the other, and no further than the result needs.
-/

namespace Credence.Weighing

variable {α : Type} [OfNat α 0] [OfNat α 1] [Add α] [Sub α] [Mul α] [LE α] [DecidableLE α]
variable {m : Type → Type} [Monad m]

/-- The strength in one scenario, after conditions that have lost `loss`. -/
def inScenario {γ : Type} (confidence : α) (outcome : γ → m α) (salience : γ → α) :
    α → List γ → m α
  | loss, [] => return confidence * (1 - loss)
  | loss, c :: rest => do
    let x ← outcome c
    let loss := loss + (1 - x) * salience c
    if 1 ≤ loss then return 0 else inScenario confidence outcome salience loss rest

/-- The strength over scenarios, after others that have left `doubt`. -/
def overScenarios {σ : Type} (strength : σ → m α) : α → List σ → m α
  | doubt, [] => return 1 - doubt
  | doubt, s :: rest => do
    let x ← strength s
    let doubt := doubt * (1 - x)
    if doubt ≤ 0 then return 1 else overScenarios strength doubt rest

end Credence.Weighing
