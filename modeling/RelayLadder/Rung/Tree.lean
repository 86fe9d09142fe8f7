import RelayLadder.Rung.Node

/-!
# Trees in an arena of nodes

A block names its children by id; the ids are resolved through a list of nodes, where the
last node with an id stands for it. Walking a tree from a node lists it in pre-order: the
node, then the tree of each child in order. A block with a child id that does not resolve
stops the walk, and the error names the last such child of the first such block.

The walk is bounded by a depth: in an arena of `k` nodes a path without repeated nodes has
at most `k + 1` nodes, so the depth `k + 1` reaches every node of a tree; a deeper walk
happens only on a cycle.
-/

namespace RelayLadder

/-- The node that an id names among nodes: the last node with that id. -/
def lookupNode (nodes : List Node) (id : String) : Option Node :=
  nodes.foldl (fun found n => if n.id == id then some n else found) none

/-- The children of a node, resolved; the error names the last child id that does not
resolve. -/
def resolveChildren (nodes : List Node) (n : Node) : Except String (List Node) :=
  let ids := n.body.children
  match ids.reverse.find? fun i => (lookupNode nodes i).isNone with
  | some missing => .error missing
  | none => .ok (ids.filterMap (lookupNode nodes))

/-- The tree under a node in pre-order, down to a depth. -/
def preorderUpTo (nodes : List Node) : Nat → Node → Except String (List Node)
  | 0, _ => .ok []
  | depth + 1, n => do
    let kids ← resolveChildren nodes n
    let below ← kids.mapM (preorderUpTo nodes depth)
    pure (n :: below.flatten)

/-- The depth that reaches every node of a tree in an arena. -/
def arenaDepth (nodes : List Node) : Nat := nodes.length + 1

/-- The tree under a node in pre-order. -/
def preorder (nodes : List Node) (n : Node) : Except String (List Node) :=
  preorderUpTo nodes (arenaDepth nodes) n

end RelayLadder
