import RelayLadder.Rung.Tree

/-!
# Laying a rung out on the grid

Every subtree occupies a rectangle of cells, its span. A leaf spans one cell. A series block
puts its children side by side: as many rows as its tallest child and the sum of their
columns. A parallel block stacks its children: the sum of their rows and as many columns as
its widest child. A block without children still spans one cell.

Spans are computed over the pre-order list from its end, so that the spans of a block's
children are known when the block is reached. Placing then starts with the root at the
given cell and walks the list from its start. A block sends its children to cells starting
at its own: series children move right by the columns of the ones before, parallel children
move down by their rows. Each visit records a node at the cell last sent to it; a node
reached twice keeps its first place in the list of placed nodes and takes the cell of its
last visit.
-/

namespace RelayLadder

/-- The rows and columns a subtree occupies. -/
structure Span where
  rows : Nat
  cols : Nat
  deriving DecidableEq, Repr, Inhabited

/-- The span of a subtree that is a single cell. -/
def Span.unit : Span := ⟨1, 1⟩

/-- The span of a block from the spans of its children. -/
def Span.join (w : Wiring) (ss : List Span) : Span :=
  match w with
  | .series => ⟨(ss.map (·.rows)).foldl max 1, max ((ss.map (·.cols)).foldr (· + ·) 0) 1⟩
  | .parallel => ⟨max ((ss.map (·.rows)).foldr (· + ·) 0) 1, (ss.map (·.cols)).foldl max 1⟩

/-- The span an id has in a table of spans, a single cell when it has none. -/
def spanIn (spans : List (String × Span)) (id : String) : Span :=
  (spans.lookup id).getD .unit

/-- The span of a node, its children's spans taken from a table. -/
def nodeSpan (spans : List (String × Span)) (n : Node) : Span :=
  match n.body with
  | .block w ids => Span.join w (ids.map (spanIn spans))
  | _ => .unit

/-- The spans of the nodes of a pre-order list, computed from its end. -/
def spansOf (order : List Node) : List (String × Span) :=
  order.foldr (fun n spans => (n.id, nodeSpan spans n) :: spans) []

/-- Placing in progress: the cell last sent to each id, the latest first, and the nodes
placed so far. -/
structure Placing where
  sent : List (String × Cell)
  placed : List Node
  deriving Repr

/-- Puts a node into a list in place of the node with its id, or at the end. -/
def putNode (ns : List Node) (n : Node) : List Node :=
  if ns.any (·.id == n.id) then ns.map fun m => if m.id == n.id then n else m
  else ns ++ [n]

/-- Putting a node keeps the ids already there and adds its own. -/
theorem mem_ids_putNode (ns : List Node) (n : Node) (i : String) :
    i ∈ (putNode ns n).map (·.id) ↔ i ∈ ns.map (·.id) ∨ i = n.id := by
  unfold putNode
  split
  · rename_i h
    simp only [List.map_map]
    constructor
    · intro hi
      simp only [List.mem_map, Function.comp_apply] at hi
      obtain ⟨m, hm, rfl⟩ := hi
      by_cases e : m.id = n.id
      · simp [e]
      · exact Or.inl (List.mem_map.mpr ⟨m, hm, by simp [e]⟩)
    · intro hi
      simp only [List.mem_map, Function.comp_apply]
      rcases hi with hi | rfl
      · obtain ⟨m, hm, rfl⟩ := List.mem_map.mp hi
        refine ⟨m, hm, ?_⟩
        by_cases e : m.id = n.id <;> simp [e]
      · obtain ⟨m, hm, e⟩ := List.any_eq_true.mp h
        refine ⟨m, hm, ?_⟩
        simp at e
        simp [e]
  · simp

namespace Placing

/-- The cell last sent to an id. -/
def cellOf (p : Placing) (id : String) : Cell := (p.sent.lookup id).getD {}

/-- Sends each child of a block to its cell, starting at the block's cell. -/
def sendChildren (spans : List (String × Span)) (w : Wiring) (start : Cell) (ids : List String)
    (sent : List (String × Cell)) : List (String × Cell) :=
  (ids.foldl (fun (acc : Cell × List (String × Cell)) id =>
    let (cur, sent) := acc
    let s := spanIn spans id
    let next : Cell := match w with
      | .series => { cur with col := cur.col + s.cols }
      | .parallel => { cur with row := cur.row + s.rows }
    (next, (id, cur) :: sent)) (start, sent)).2

/-- One visit of the pre-order walk. -/
def visit (spans : List (String × Span)) (p : Placing) (n : Node) : Placing :=
  let cell := p.cellOf n.id
  let placed := putNode p.placed (n.placeAt cell)
  match n.body with
  | .block w ids => ⟨sendChildren spans w cell ids p.sent, placed⟩
  | _ => ⟨p.sent, placed⟩

end Placing

/-- Lays out the tree under a root from a cell: the placed nodes in pre-order and the span
of the tree; the error names a child id that does not resolve. -/
def layout (nodes : List Node) (root : Node) (start : Cell := {}) :
    Except String (List Node × Span) := do
  let order ← preorder nodes root
  let spans := spansOf order
  let p := order.foldl (Placing.visit spans) ⟨[(root.id, start)], []⟩
  pure (p.placed, spanIn spans root.id)

end RelayLadder
