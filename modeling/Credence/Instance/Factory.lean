import Credence.Instance.Address
import Credence.Instance.Basic
import Credence.Instance.DateValue

/-!
# Factories

The factory of a concept decides how its instances are created, what the concept gives when it is
called, and which methods its instances have beyond the common ones.
-/

namespace Credence

/-- How a concept makes its instances. -/
inductive Factory where
  /-- Instances of any name, with the common methods only. -/
  | default
  /-- Instances whose name is a date. -/
  | date
  /-- Instances whose name is an e-mail address. -/
  | email
deriving DecidableEq, Repr, Inhabited

namespace Factory

def all : List Factory := [default, date, email]

def name : Factory → String
  | default => "default"
  | date => "date"
  | email => "email"

def ofName? (s : String) : Option Factory := all.find? fun f => f.name = s

@[simp] theorem ofName?_name (f : Factory) : ofName? f.name = some f := by cases f <;> decide

/-- Creates an instance from its properties, which hold those of the concept too. -/
def create (f : Factory) (concept name : String) (properties : Properties) :
    Except Error Instance :=
  match f with
  | default => .ok ⟨⟨concept, name⟩, properties⟩
  | date =>
    match Date.read? name with
    | some d => .ok ⟨⟨concept, name⟩, properties.insert "date" (.date d)⟩
    | none => .error (.violation (.noDate name))
  | email =>
    match Address.read? name.toList with
    | some a =>
      let properties := properties.insert "user" (.text (String.ofList a.user))
      let properties := properties.insert "domain" (.text (String.ofList (a.host.map Char.toLower)))
      .ok ⟨⟨concept, name⟩, properties⟩
    | none => .error (.violation (.noAddress name))

/-- What a concept gives when it is called: a date, or null for arguments that give none. -/
def call (f : Factory) (concept : String) (args : List Value) : Except Error Value :=
  match f with
  | date => .ok (((Date.ofValues? args).map .date).getD .null)
  | default | email => .error (.unsupported (.notCallable concept))

/-- The date of an instance: its property if that stands for a date, or its name. -/
def dateOf? (i : Instance) : Option Date :=
  ((i.property? "date").bind Value.asDate?).or (Date.read? i.key.name)

/-- A method of an instance. -/
def method (f : Factory) (i : Instance) (method : String) (args : List Value) :
    Except Error Value :=
  match f with
  | default => i.commonMethod method args
  | date =>
    match dateOf? i with
    | some d =>
      match d.method method args with
      | .ok v => .ok v
      | .error _ => i.commonMethod method args
    | none => i.commonMethod method args
  | email =>
    if (method = "user" ∨ method = "domain") ∧ args.isEmpty then
      .ok ((i.property? method).getD .null)
    else i.commonMethod method args

end Factory

end Credence
