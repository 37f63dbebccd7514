import Credence.Collection.Table

/-!
# Slots

A condition speaks about things that a scenario puts in place: the domain `%` and the target `@` of
the query, and parameters such as `#Country` or `#[home]Country` that range over the instances of a
concept.  A parameter with a tag is told apart from others of its concept, and ranges over the
instances of narrower concepts too.
-/

namespace Credence

/-- A place in a condition that a scenario fills. -/
inductive Slot where
  /-- The domain of the query, `%`. -/
  | domain
  /-- The target of the query, `@`. -/
  | target
  /-- An instance of a concept. -/
  | param (concept : String) (tag : Option String)
deriving DecidableEq, Repr

namespace Slot

/-- The names by which slots are sorted. -/
def path : Slot → List String
  | domain => []
  | target => [""]
  | param c none => ["", c]
  | param c (some t) => ["", c, t]

theorem path_injective {a b : Slot} (h : a.path = b.path) : a = b := by
  cases a with
  | domain => cases b with
    | domain => rfl
    | target => simp [path] at h
    | param c t => cases t <;> simp [path] at h
  | target => cases b with
    | domain => simp [path] at h
    | target => rfl
    | param c t => cases t <;> simp [path] at h
  | param c t => cases b with
    | domain => cases t <;> simp [path] at h
    | target => cases t <;> simp [path] at h
    | param c' t' => cases t <;> cases t' <;> simp_all [path]

/-- Slots come in the order domain, target, parameters; these by concept, the untagged one first. -/
instance : Ord Slot := ⟨compareOn path⟩

instance : Std.TransOrd Slot := inferInstanceAs (Std.TransCmp (compareOn path))

instance : Std.LawfulEqOrd Slot where
  eq_of_compare {_ _} h := path_injective (Std.LawfulEqCmp.eq_of_compare h)

/-- Whether a slot is a parameter, which a rule ranges over. -/
def isFree : Slot → Bool
  | param _ _ => true
  | _ => false

/-- Whether a slot ranges over the instances of narrower concepts too. -/
def reachesDown : Slot → Bool
  | param _ (some _) => true
  | _ => false

def concept? : Slot → Option String
  | param c _ => some c
  | _ => none

def toText : Slot → String
  | domain => "%"
  | target => "@"
  | param c none => "#" ++ c
  | param c (some t) => "#[" ++ t ++ "]" ++ c

end Slot

abbrev SlotSet := KeySet Slot

end Credence
