import Credence.Instance.Factory

/-!
# Concepts

A concept is a named type with parents and children, other names (aliases), properties, and a
category that says which instances it may have.  What it inherits is kept beside what it declares:

* each inherited alias with the number of parents that contribute it;
* for each inherited property the distinct values that the parents contribute, each with its number.

A property that a concept declares itself hides the inherited ones.
-/

namespace Credence

/-- Which instances a concept may have. -/
inductive Category where
  /-- None. -/
  | abstract
  /-- One, which has the name of the concept. -/
  | static
  /-- Any number, each with its own name. -/
  | dynamic
deriving DecidableEq, Repr, Inhabited

namespace Category

def all : List Category := [abstract, static, dynamic]

def name : Category → String
  | abstract => "abstract"
  | static => "static"
  | dynamic => "dynamic"

def ofName? (s : String) : Option Category := all.find? fun c => c.name = s

@[simp] theorem ofName?_name (c : Category) : ofName? c.name = some c := by cases c <;> decide

end Category

/-- What a concept has under a key: one value, or the different values of its parents. -/
inductive Holding where
  | single (value : Value)
  | multi (values : List Value)
deriving Inhabited

namespace Holding

def values : Holding → List Value
  | single v => [v]
  | multi vs => vs

/-- A holding as one value; several values make a list. -/
def toValue : Holding → Value
  | single v => v
  | multi vs => .list vs

/-- The holding of a number of values, none if there are none. -/
def ofValues? : List Value → Option Holding
  | [] => none
  | [v] => some (single v)
  | vs => some (multi vs)

end Holding

/-- What a concept inherits. -/
structure Inherited where
  /-- For each alias the number of parents that contribute it. -/
  aliases : Table String Nat := ∅
  /-- For each key the distinct values, each with the number of contributions. -/
  properties : Table String (List (Value × Nat)) := ∅
deriving Inhabited

/-- A named type. -/
structure Concept where
  name : String
  category : Category
  /-- The names of its parents, which need not exist. -/
  parents : NameSet := ∅
  /-- The names of its children, which need not exist. -/
  children : NameSet := ∅
  /-- The aliases that it declares itself. -/
  ownAliases : NameSet := ∅
  /-- The properties that it declares itself. -/
  ownProperties : Properties := ∅
  /-- The factory that was chosen for it, if any was. -/
  chosenFactory : Option Factory := none
  inherited : Inherited := {}
  /-- For each relation the number of groups and rules that it is a member of. -/
  memberships : Table String Nat := ∅
deriving Inhabited

namespace Concept

/-- All aliases, declared and inherited. -/
def aliases (c : Concept) : NameSet := c.ownAliases.addAll c.inherited.aliases.keys

/-- The number of parents that contribute an alias. -/
def aliasCount (c : Concept) (name : String) : Nat := (c.inherited.aliases.get? name).getD 0

/-- What a concept has under a key: its own value, or what it inherits. -/
def property? (c : Concept) (key : String) : Option Holding :=
  match c.ownProperties.get? key with
  | some v => some (.single v)
  | none => (c.inherited.properties.get? key).bind fun vs => Holding.ofValues? (vs.map (·.1))

/-- Every property with what the concept has under it. -/
def properties (c : Concept) : Table String Holding :=
  let keys : NameSet := KeySet.ofList (c.ownProperties.keys ++ c.inherited.properties.keys)
  Table.ofList (keys.toList.filterMap fun k => (c.property? k).map fun h => (k, h))

/-- Every property as one value, which is what new instances start from. -/
def seed (c : Concept) : Properties := c.properties.mapValues fun _ h => h.toValue

/-- The factory in use. -/
def factory (c : Concept) : Factory := c.chosenFactory.getD .default

def isInstantiable (c : Concept) : Bool := c.category ≠ .abstract

end Concept

namespace Inherited

/-- Counts one more contribution of a value. -/
def bumpValue (v : Value) : List (Value × Nat) → List (Value × Nat)
  | [] => [(v, 1)]
  | (w, n) :: rest => if w == v then (w, n + 1) :: rest else (w, n) :: bumpValue v rest

/-- Adds what one parent contributes: all its aliases and everything under its keys. -/
def addParent (i : Inherited) (parent : Concept) : Inherited where
  aliases := parent.aliases.toList.foldl (fun t a => t.alter a fun n => n.getD 0 + 1) i.aliases
  properties := parent.properties.entries.foldl
    (fun t e => t.alter e.1 fun vs => e.2.values.foldl (fun vs v => bumpValue v vs) (vs.getD []))
    i.properties

/-- What a concept with the given parents inherits. -/
def ofParents (parents : List Concept) : Inherited := parents.foldl addParent {}

end Inherited

end Credence
