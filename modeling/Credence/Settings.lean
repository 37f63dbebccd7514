import Credence.Text.Blank

/-!
# Settings

Where the service listens, where it keeps its knowledge, and which bundles it starts with.  Each is
taken from a variable of the environment, or has its default.
-/

namespace Credence

structure Settings where
  /-- The address to listen on. -/
  address : String
  /-- The file of the knowledge base. -/
  ontologyPath : String
  /-- The bundles to import at the start. -/
  bundles : List String
deriving DecidableEq, Repr

namespace Settings

/-- The parts of a text between commas, without the blanks around them; blank parts are dropped. -/
def listed (s : String) : List String :=
  ((s.splitOn ",").map Text.trim).filter fun part => part ≠ ""

/-- Takes the settings from an environment. -/
def ofEnvironment (lookUp : String → Option String) : Settings where
  address := (lookUp "COGNITIVE_ADDR").getD "0.0.0.0:3000"
  ontologyPath := (lookUp "COGNITIVE_ONTOLOGY").getD "data/ontology.json"
  bundles := listed ((lookUp "COGNITIVE_BUILTINS").getD "time,email")

end Settings

end Credence
