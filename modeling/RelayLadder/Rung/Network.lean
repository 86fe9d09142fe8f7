import RelayLadder.Rung.Tree
import RelayLadder.Text.Quoted

/-!
# Networks

A network is one rung: its nodes in one list, the id of the root of its logic tree, the step
it came from and a comment. The list holds the tree in pre-order, blocks included, followed
by the taps.

A network is well formed when its node ids are distinct, its root is one of its nodes and
every child a block names is one of its nodes. The first rule that fails is reported.
-/

namespace RelayLadder

/-- One rung of a program. -/
structure Network where
  id : String
  step : Int
  nodes : List Node := []
  rootId : Option String := none
  comment : Option String := none
  deriving DecidableEq, Repr, Inhabited

/-- The first id of a list that occurs earlier in it. -/
def firstRepeat (ids : List String) : Option String :=
  (ids.foldl (fun (acc : List String × Option String) i =>
    match acc.2 with
    | some r => (acc.1, some r)
    | none => if acc.1.contains i then (acc.1, some i) else (i :: acc.1, none)) ([], none)).2

namespace Network

/-- The ids of the nodes, in order. -/
def ids (net : Network) : List String := net.nodes.map (·.id)

/-- Why a network is not well formed: the first of its rules that fails, as a message. -/
def problem? (net : Network) : Option String :=
  match firstRepeat net.ids with
  | some d => some ("Duplicate node id " ++ Text.quoted d ++ " in network " ++ Text.quoted net.id)
  | none =>
    match net.rootId with
    | some r =>
      if net.ids.contains r then unknownChild net
      else some ("root_id " ++ Text.quoted r ++ " is not a node of network " ++ Text.quoted net.id)
    | none => unknownChild net
where
  /-- The first child id of a block that names no node. -/
  unknownChild (net : Network) : Option String :=
    net.nodes.findSome? fun n =>
      (n.body.children.find? fun c => !net.ids.contains c).map fun c =>
        "Block " ++ Text.quoted n.id ++ " references unknown child " ++ Text.quoted c

/-- The first node with an id. -/
def find? (net : Network) (id : String) : Option Node := net.nodes.find? (·.id == id)

/-- The root of the logic tree. -/
def root? (net : Network) : Option Node := net.rootId.bind net.find?

/-- The ids that some block names as a child. -/
def childIds (net : Network) : List String := net.nodes.flatMap (·.body.children)

/-- The nodes that no block contains. -/
def topLevel (net : Network) : List Node :=
  let inside := net.childIds
  net.nodes.filter fun n => !inside.contains n.id

/-- The taps: top-level nodes other than the root that hang off the logic path. -/
def taps (net : Network) : List Node :=
  net.topLevel.filter fun n => some n.id != net.rootId && n.body.isTap

/-- The children of a node, resolved through the network. -/
def children (net : Network) (n : Node) : List Node :=
  n.body.children.filterMap (lookupNode net.nodes)

/-- The tree under a node in pre-order. -/
def walkFrom (net : Network) (n : Node) : List Node :=
  match preorder net.nodes n with
  | .ok ns => ns
  | .error _ => []

/-- The logic tree in pre-order from the root; empty without a root. -/
def walk (net : Network) : List Node :=
  match net.root? with
  | some r => net.walkFrom r
  | none => []

/-- The leaves of the logic tree, in pre-order. -/
def leaves (net : Network) : List Node := net.walk.filter fun n => !n.body.isBlock

/-- The nodes that are not blocks, in list order. -/
def leafNodes (net : Network) : List Node := net.nodes.filter fun n => !n.body.isBlock

end Network

end RelayLadder
