import Credence.Condition.Slot
import Credence.Decimal.Layout
import Credence.Formula.Basic
import Credence.Text.Quoted

/-!
# Expressions of conditions

The tree of a condition, its written form with every operator in parentheses, and the slots that a
scenario must fill before it can be evaluated.

A `count` ranges over the slots of its first argument by itself; to whoever evaluates the expression
those slots are hidden.
-/

namespace Credence

/-- The operators that stand between two operands. -/
inductive Operator where
  | add
  | sub
  | mul
  | pow
  | div
  | floorDiv
  | mod
  | eq
  | ne
  | gt
  | lt
  | ge
  | le
  | and
  | or
  | is
  | isNot
deriving DecidableEq, Repr

def Operator.symbol : Operator → String
  | add => "+"
  | sub => "-"
  | mul => "*"
  | pow => "**"
  | div => "/"
  | floorDiv => "//"
  | mod => "%"
  | eq => "=="
  | ne => "!="
  | gt => ">"
  | lt => "<"
  | ge => ">="
  | le => "<="
  | and => "and"
  | or => "or"
  | is => "is"
  | isNot => "is not"

/-- The functions of the language, apart from `f`, which takes a formula. -/
inductive Builtin where
  /-- What a relation comes to by rules without conditions. -/
  | facts
  | is
  | isNot
  | eq
  | eqNot
  /-- How near two numbers are, on the scale of a third. -/
  | approx
  /-- For how many instances something holds. -/
  | count
deriving DecidableEq, Repr

namespace Builtin

def all : List Builtin := [facts, is, isNot, eq, eqNot, approx, count]

def name : Builtin → String
  | facts => "facts"
  | is => "is"
  | isNot => "isNot"
  | eq => "eq"
  | eqNot => "eqNot"
  | approx => "approx"
  | count => "count"

def ofName? (s : String) : Option Builtin := all.find? fun f => f.name = s

@[simp] theorem ofName?_name (f : Builtin) : ofName? f.name = some f := by cases f <;> decide

end Builtin

/-- The tree of a condition. -/
inductive Expr where
  | slot (s : Slot)
  /-- Whether a relation holds between two things, or, negated, does not. -/
  | relation (name : String) (domain target : Expr) (negated : Bool)
  | property (subject : Expr) (key : String)
  | method (subject : Expr) (name : String) (args : List Expr)
  /-- A value made by a concept. -/
  | construct (concept : String) (args : List Expr)
  | number (x : Float)
  | text (s : String)
  | builtin (function : Builtin) (args : List Expr)
  /-- A formula, with the values of its variables and the text it was read from. -/
  | formula (args : List Expr) (body : Formula) (source : String)
  | binary (op : Operator) (left right : Expr)
  | negate (inner : Expr)
deriving Inhabited

namespace Expr

/-! ## Equality

Trees are equal when they have the same shape and contents, numbers being compared as numbers. -/

mutual

def eq : Expr → Expr → Bool
  | slot a, slot b => a == b
  | relation n d t g, relation n' d' t' g' => n == n' && eq d d' && eq t t' && g == g'
  | property s k, property s' k' => eq s s' && k == k'
  | method s n as, method s' n' as' => eq s s' && n == n' && eqList as as'
  | construct c as, construct c' as' => c == c' && eqList as as'
  | number x, number y => x == y
  | text a, text b => a == b
  | builtin f as, builtin f' as' => f == f' && eqList as as'
  | formula as b s, formula as' b' s' => eqList as as' && b == b' && s == s'
  | binary o l r, binary o' l' r' => o == o' && eq l l' && eq r r'
  | negate a, negate b => eq a b
  | _, _ => false

def eqList : List Expr → List Expr → Bool
  | [], [] => true
  | a :: as, b :: bs => eq a b && eqList as bs
  | _, _ => false

end

instance : BEq Expr := ⟨eq⟩

/-! ## Written form -/

mutual

/-- The written form of a tree: every operator with its operands stands in parentheses. -/
def toText : Expr → String
  | slot s => s.toText
  | relation name d t negated =>
    let sign := if negated then "-" else "="
    toText d ++ sign ++ name ++ sign ++ toText t
  | property subject key => toText subject ++ "." ++ key
  | method subject name args => toText subject ++ "." ++ name ++ "(" ++ listText args ++ ")"
  | construct concept args => "#" ++ concept ++ "(" ++ listText args ++ ")"
  | number x => Decimal.plain x
  | text s => Text.quote s
  | builtin function args => function.name ++ "(" ++ listText args ++ ")"
  | formula args _ source =>
    "f(" ++ listText args ++ (if args.isEmpty then "" else ", ") ++ Text.quote source ++ ")"
  | binary op left right => "(" ++ toText left ++ " " ++ op.symbol ++ " " ++ toText right ++ ")"
  | negate inner => "-" ++ toText inner

def listText : List Expr → String
  | [] => ""
  | [e] => toText e
  | e :: rest => toText e ++ ", " ++ listText rest

end

/-! ## Slots -/

mutual

/-- The slots that a scenario must fill, added to a set; a `count` hides those it ranges over. -/
def addSlots : Expr → SlotSet → SlotSet
  | slot s, seen => seen.add s
  | relation _ d t _, seen => addSlots t (addSlots d seen)
  | property subject _, seen => addSlots subject seen
  | method subject _ args, seen => addSlotsList args (addSlots subject seen)
  | construct _ args, seen => addSlotsList args seen
  | number _, seen => seen
  | text _, seen => seen
  | builtin .count args, seen =>
    let hidden := headSlots args
    seen.union ((addSlotsList args ∅).keep fun s => !hidden.has s)
  | builtin _ args, seen => addSlotsList args seen
  | formula args _ _, seen => addSlotsList args seen
  | binary _ left right, seen => addSlots right (addSlots left seen)
  | negate inner, seen => addSlots inner seen

def addSlotsList : List Expr → SlotSet → SlotSet
  | [], seen => seen
  | e :: rest, seen => addSlotsList rest (addSlots e seen)

/-- The slots that a `count` with these arguments ranges over: the first argument if it is a
parameter, or the parameters of a relation. -/
def headSlots : List Expr → SlotSet
  | slot s :: _ => if s.isFree then KeySet.ofList [s] else ∅
  | relation _ d t _ :: _ => (addSlots t (addSlots d ∅)).keep Slot.isFree
  | _ => ∅

end

/-- The slots that a scenario must fill. -/
def slots (e : Expr) : SlotSet := e.addSlots ∅

/-- The parameters among the slots. -/
def freeSlots (e : Expr) : SlotSet := e.slots.keep Slot.isFree

/-- The slots that a `count` over this tree ranges over. -/
def introducedSlots (e : Expr) : SlotSet := headSlots [e]

mutual

/-- Whether the target of the query occurs anywhere in a tree. -/
def mentionsTarget : Expr → Bool
  | slot s => s = .target
  | relation _ d t _ => mentionsTarget d || mentionsTarget t
  | property subject _ => mentionsTarget subject
  | method subject _ args => mentionsTarget subject || anyMentionsTarget args
  | construct _ args => anyMentionsTarget args
  | number _ => false
  | text _ => false
  | builtin _ args => anyMentionsTarget args
  | formula args _ _ => anyMentionsTarget args
  | binary _ left right => mentionsTarget left || mentionsTarget right
  | negate inner => mentionsTarget inner

def anyMentionsTarget : List Expr → Bool
  | [] => false
  | e :: rest => mentionsTarget e || anyMentionsTarget rest

end

end Expr

end Credence
