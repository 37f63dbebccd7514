import Credence.Ontology.Rule

/-!
# Relations

A relation has groups of concepts for its domain and groups for its target, side by side: it may
hold between two concepts if some pair of groups has the one and the other.  A group names its
bases, which need not exist yet, and has a view: the bases that exist and everything below them.

The rules of a relation stand in the order of their confidence, the strongest first.
-/

namespace Credence

/-- Concepts that may stand on one side of a relation. -/
structure Group where
  /-- The concepts that were named. -/
  bases : NameSet := ∅
  /-- The concepts that they stand for. -/
  view : NameSet := ∅
deriving Inhabited

/-- The bases of a group that do not exist. -/
def Group.partials (g : Group) (exists? : String → Bool) : List String :=
  g.bases.toList.filter fun b => !exists? b

/-- A named relation with its rules. -/
structure Relation where
  name : String
  domains : List Group := []
  targets : List Group := []
  /-- Whether the relation never holds between a thing and itself. -/
  distinct : Bool := false
  /-- The rules, strongest first. -/
  rules : List Rule := []
deriving Inhabited

namespace Relation

def groups (r : Relation) : List (Group × Group) := r.domains.zip r.targets

/-- Whether the relation may hold between two concepts. -/
def between (r : Relation) (domain target : String) : Bool :=
  r.groups.any fun g => g.1.view.has domain && g.2.view.has target

/-- Every concept that groups stand for. -/
def viewOf (gs : List Group) : NameSet := gs.foldl (fun s g => s.union g.view) ∅

/-- Whether some group names a concept. -/
def declares (r : Relation) (concept : String) : Bool :=
  (r.domains ++ r.targets).any fun g => g.bases.has concept

def rule? (r : Relation) (id : RuleId) : Option Rule := r.rules.find? fun rule => rule.id = id

/-- Puts a rule behind those that are at least as confident. -/
def insertRule (r : Relation) (rule : Rule) : Relation :=
  { r with rules := insertWhere (fun s => rule.confidence ≤ s.confidence) rule r.rules }

/-- Changes the first item that passes a test. -/
def changeFirst {α : Type} (p : α → Bool) (f : α → α) : List α → List α
  | [] => []
  | a :: rest => if p a then f a :: rest else a :: changeFirst p f rest

/-- Changes the first rule of an identifier. -/
def modifyRule (r : Relation) (id : RuleId) (f : Rule → Rule) : Relation :=
  { r with rules := changeFirst (fun rule => rule.id = id) f r.rules }

/-- Drops the first rule of an identifier. -/
def eraseRule (r : Relation) (id : RuleId) : Relation :=
  { r with rules := r.rules.eraseP fun rule => rule.id = id }

end Relation

end Credence
