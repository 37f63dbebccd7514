import Credence.Error

/-!
# Instances

An instance is a key with properties.  Two instances with one key are the same instance, whatever
their properties.
-/

namespace Credence

structure Instance where
  key : InstanceKey
  properties : Properties
deriving Inhabited

namespace Instance

def property? (i : Instance) (key : String) : Option Value := i.properties.get? key

def same (i j : Instance) : Bool := i.key = j.key

def isNamed (i : Instance) (name : String) : Bool := i.key.name = name

/-- The methods of every instance: `name()`, `concept()`, `has(key)` and `get(key)`. -/
def commonMethod (i : Instance) (method : String) (args : List Value) : Except Error Value :=
  match method, args with
  | "name", [] => .ok (.text i.key.name)
  | "concept", [] => .ok (.concept i.key.concept)
  | "has", [key] => .ok (.bool (key.asText?.any fun k => i.properties.contains k))
  | "get", [key] => .ok ((key.asText?.bind i.property?).getD .null)
  | _, _ => .error (.unsupported (.instanceMethod i.key method args.length))

end Instance

end Credence
