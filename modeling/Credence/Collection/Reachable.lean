import Credence.Collection.Table

/-!
# What can be reached

The nodes that can be reached from a node by one or more edges.  The search keeps the nodes it has
still to follow on a stack and never puts a node there twice, so the number of nodes, and one more,
bounds its steps.
-/

namespace Credence

variable {κ : Type} [Ord κ] [Std.TransOrd κ] [Std.LawfulEqOrd κ]

namespace KeySet

/-- Follows every node on the stack, the first argument bounding the steps. -/
def explore (next : κ → List κ) : Nat → List κ → KeySet κ → KeySet κ
  | 0, _, seen => seen
  | _ + 1, [], seen => seen
  | steps + 1, current :: stack, seen =>
    let fresh := (next current).filter fun k => !has seen k
    explore next steps (fresh ++ stack) (addAll seen fresh)

/-- The nodes reached from a node, without the node itself, in a graph of a given size. -/
def reachable (next : κ → List κ) (size : Nat) (start : κ) : KeySet κ :=
  remove (explore next (size + 1) [start] Table.empty) start

end KeySet

end Credence
