import Reshape.Path
import Reshape.Proofs.Fields
import Reshape.Proofs.Path.Alike
import Reshape.Proofs.Value.Tree

/-!
# Nodes in document order

The nodes of a value in the order in which its text would show them: a container before what it
holds, items by their indices, members in the order of their keys. Each comes with its place, the
keys and indices on the way down to it, by which it is found again.
-/

namespace Reshape.Value

/-- A node of a child, as a node of the container. -/
def under (part : String) (node : List String × Value) : List String × Value :=
  (part :: node.1, node.2)

mutual

def nodes (value : Value) : List (List String × Value) :=
  ([], value) :: match value with
    | .array items => itemNodes 0 items
    | .object members => memberNodes members
    | _ => []

/-- The nodes of an array's items from an index on. -/
def itemNodes (index : Nat) : List Value → List (List String × Value)
  | [] => []
  | item :: rest => item.nodes.map (under (toString index)) ++ itemNodes (index + 1) rest

def memberNodes : List (String × Value) → List (List String × Value)
  | [] => []
  | (key, value) :: rest => value.nodes.map (under key) ++ memberNodes rest

end

variable {value node : Value} {place : List String} {items : List Value} {members : Fields Value}

end Reshape.Value
