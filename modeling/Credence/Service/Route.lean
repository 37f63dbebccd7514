import Credence.Service.Percent

/-!
# Routes

What a request is about follows from the path of its target: a query, which only looks at the
knowledge base, or a command, which works on it.  Queries are asked with `GET` or `HEAD`, commands
are given with `POST`.

A target is a path, or it names a scheme and an authority in front of the path, as in
`http://host/status`.  Whatever they are, only the path counts.
-/

namespace Credence.Service

inductive Method where
  | get
  | head
  | post
  | options
  | other
deriving DecidableEq, Repr

def Method.ofName : String → Method
  | "GET" => get
  | "HEAD" => head
  | "POST" => post
  | "OPTIONS" => options
  | _ => other

/-- What only looks at the knowledge base. -/
inductive Query where
  | dashboard
  | status
  | concepts
  /-- One concept, its name as the path has it. -/
  | concept (encoded : String)
  | relations
deriving DecidableEq, Repr

/-- What works on the knowledge base. -/
inductive Command where
  /-- Decides whether a relation holds. -/
  | infer
  /-- Learns from annotated texts. -/
  | learn
  /-- Finds entities in a text. -/
  | extract
  /-- Forgets all deductions. -/
  | reset
deriving DecidableEq, Repr

/-- What a request is about. -/
inductive Route where
  | query (q : Query)
  | command (c : Command)
deriving DecidableEq, Repr

namespace Route

/-- Whether a character may stand in a scheme. -/
def isSchemeChar (c : Char) : Bool := c.isAlphanum || c = '+' || c = '-' || c = '.'

/-- The part of a target before the query string and the fragment. -/
def beforeQuery (target : List Char) : List Char :=
  target.takeWhile fun c => c ≠ '?' && c ≠ '#'

/-- The path of a target.  Behind an authority no path at all is the path of the root. -/
def pathOf (target : String) : String :=
  let text := beforeQuery target.toList
  match text.dropWhile isSchemeChar with
  | ':' :: '/' :: '/' :: rest =>
    match rest.dropWhile (· ≠ '/') with
    | [] => "/"
    | path => String.ofList path
  | _ => String.ofList text

def ofTarget? (target : String) : Option Route :=
  match (pathOf target).splitOn "/" with
  | ["", ""] => some (query .dashboard)
  | ["", "status"] => some (query .status)
  | ["", "concepts"] => some (query .concepts)
  | ["", "concepts", encoded] => if encoded = "" then none else some (query (.concept encoded))
  | ["", "relations"] => some (query .relations)
  | ["", "infer"] => some (command .infer)
  | ["", "knowledge"] => some (command .learn)
  | ["", "extract"] => some (command .extract)
  | ["", "reset"] => some (command .reset)
  | _ => none

end Route

end Credence.Service
