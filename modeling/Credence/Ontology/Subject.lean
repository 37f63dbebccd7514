import Credence.Value.Basic

/-!
# Subjects

What a relation speaks about: a concept as a whole, or one instance of it.
-/

namespace Credence

/-- A concept or an instance. -/
inductive Subject where
  | concept (name : String)
  | inst (key : InstanceKey)
deriving DecidableEq, Repr, Inhabited

namespace Subject

/-- The names by which subjects of a kind are sorted. -/
def path : Subject → List String
  | concept name => [name]
  | inst key => ["", key.concept, key.name]

/-- The place of a kind of subject among the kinds. -/
def rank : Subject → Nat
  | concept _ => 0
  | inst _ => 1

theorem path_injective {a b : Subject} (h : a.path = b.path) : a = b := by
  cases a with
  | concept n => cases b <;> simp_all [path]
  | inst k =>
    cases b with
    | concept n => simp [path] at h
    | inst k' =>
      cases k; cases k'
      simp_all [path]

/-- Concepts come before instances; concepts compare by name, instances by key. -/
instance : Ord Subject := ⟨compareLex (compareOn rank) (compareOn path)⟩

instance : Std.TransOrd Subject :=
  inferInstanceAs (Std.TransCmp (compareLex (compareOn rank) (compareOn path)))

instance : Std.LawfulEqOrd Subject where
  eq_of_compare {_ _} h :=
    path_injective (Std.LawfulEqCmp.eq_of_compare (Ordering.then_eq_eq.1 h).2)

/-- The concept that a subject is or belongs to. -/
def conceptName : Subject → String
  | concept name => name
  | inst key => key.concept

def key? : Subject → Option InstanceKey
  | concept _ => none
  | inst key => some key

/-- The value that stands for a subject in conditions. -/
def toValue : Subject → Value
  | concept name => .concept name
  | inst key => .inst key

def toText : Subject → String
  | concept name => "#" ++ name
  | inst key => key.toText

end Subject

/-- The two sides of a rule. -/
inductive Side where
  | domain
  | target
deriving DecidableEq, Repr

def Side.name : Side → String
  | domain => "domain"
  | target => "target"

end Credence
