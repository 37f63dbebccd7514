import Credence.Error
import Credence.Confidence.Basic

/-!
# What a deduction remembers

While a query is answered, a memo has an entry for every rule that was begun on a pair of subjects:
it is still being evaluated, or it came to a strength.  The entries last until the memo is cleared.
-/

namespace Credence

/-- A rule, by its relation and its place there, with the pair of subjects it is evaluated on. -/
structure Question where
  relation : String
  rule : Nat
  domain : Subject
  target : Subject
deriving DecidableEq, Repr

namespace Question

instance : Ord Question :=
  ⟨compareLex (compareOn relation)
    (compareLex (compareOn rule) (compareLex (compareOn domain) (compareOn target)))⟩

instance : Std.TransOrd Question :=
  inferInstanceAs (Std.TransCmp (compareLex (compareOn relation)
    (compareLex (compareOn rule) (compareLex (compareOn domain) (compareOn target)))))

instance : Std.LawfulEqOrd Question where
  eq_of_compare {a b} h := by
    obtain ⟨h₁, h⟩ := Ordering.then_eq_eq.1 h
    obtain ⟨h₂, h⟩ := Ordering.then_eq_eq.1 h
    obtain ⟨h₃, h₄⟩ := Ordering.then_eq_eq.1 h
    cases a; cases b
    simp only [compareOn, Std.LawfulEqCmp.compare_eq_iff_eq] at h₁ h₂ h₃ h₄
    simp [h₁, h₂, h₃, h₄]

end Question

/-- How far the evaluation of a rule has come. -/
inductive Progress where
  | running
  | done (strength : Float)
deriving DecidableEq, Repr

/-- What a deduction remembers. -/
abbrev Memo := Table Question Progress

/-- A computation that remembers and may fail; what it remembers up to a failure is kept. -/
abbrev Deduction (α : Type) := ExceptT Error (StateM Memo) α

end Credence
