import Credence.Ontology.Change

/-!
# Bundles

A bundle is a list of ready-made concepts.  Importing one adds those that do not exist yet.
-/

namespace Credence

inductive Bundle where
  | time
  | email
deriving DecidableEq, Repr

namespace Bundle

def all : List Bundle := [time, email]

def name : Bundle → String
  | time => "time"
  | email => "email"

def ofName? (s : String) : Option Bundle := all.find? fun b => b.name = s

/-- The days of the week, each with a short name. -/
def weekdays : List (String × String) := [
  ("Monday", "Mon"), ("Tuesday", "Tue"), ("Wednesday", "Wed"), ("Thursday", "Thu"),
  ("Friday", "Fri"), ("Saturday", "Sat"), ("Sunday", "Sun")]

/-- The concept of a day, with its place in the week. -/
def weekday (day : (String × String) × Nat) : Concept where
  name := day.1.1
  category := .static
  parents := KeySet.ofList ["Weekday"]
  ownAliases := KeySet.ofList [day.1.2]
  ownProperties := Table.ofList [("index", .ofInt day.2)]

/-- The concepts of a bundle, in the order in which they are added. -/
def concepts : Bundle → List Concept
  | time => [
      { name := "Time", category := .abstract },
      { name := "Date", category := .dynamic, parents := KeySet.ofList ["Time"],
        chosenFactory := some .date },
      { name := "Weekday", category := .abstract, parents := KeySet.ofList ["Time"],
        ownAliases := KeySet.ofList ["day of the week"] }]
      ++ weekdays.zipIdx.map weekday
  | email => [
      { name := "Contact", category := .abstract },
      { name := "Email", category := .dynamic, parents := KeySet.ofList ["Contact"],
        ownAliases := KeySet.ofList ["e-mail"], chosenFactory := some .email }]

end Bundle

namespace Ontology

/-- Adds those of some concepts that do not exist, and gives their names. -/
def addMissing : List Concept → Change (List String)
  | [] => return []
  | c :: rest => do
    if (← get).hasConcept c.name then addMissing rest
    else
      addConcept c
      let added ← addMissing rest
      return c.name :: added

def importBundle (name : String) : Change (List String) :=
  match Bundle.ofName? name with
  | some b => addMissing b.concepts
  | none => throw (.missing (.bundle name))

end Ontology

end Credence
