import RelayLadder.Rung.Network

/-!
# Measuring the grid of a network

Blocks share the cell of their first child, so the measures count only the nodes that are
not blocks: the size of the occupied grid, the occupied cells, how many nodes each row and
column holds, and the bounding box.
-/

namespace RelayLadder

/-- The largest of a list of integers, with a value for the empty list. -/
def maxOr (d : Int) : List Int → Int
  | [] => d
  | x :: xs => xs.foldl max x

/-- The smallest of a list of integers, with a value for the empty list. -/
def minOr (d : Int) : List Int → Int
  | [] => d
  | x :: xs => xs.foldl min x

/-- The width and height of the occupied grid: the largest column and row plus one; zero by
zero without nodes. -/
def gridSize (leaves : List Node) : Int × Int :=
  if leaves.isEmpty then (0, 0)
  else (maxOr 0 (leaves.map (·.cell.col)) + 1, maxOr 0 (leaves.map (·.cell.row)) + 1)

/-- Row-major order of cells. -/
def cellLe (a b : Int × Int) : Bool := a.1 < b.1 || (a.1 == b.1 && a.2 ≤ b.2)

/-- The occupied cells as (row, column), without repeats, in row-major order. -/
def occupiedCells (leaves : List Node) : List (Int × Int) :=
  ((leaves.map fun n => (n.cell.row, n.cell.col)).eraseDups).mergeSort cellLe

/-- How many of a list of keys there are of each, by ascending key. -/
def countKeys (keys : List Int) : List (Int × Nat) :=
  (keys.eraseDups.mergeSort (· ≤ ·)).map fun k => (k, keys.count k)

/-- The nodes on each row, by ascending row. -/
def countByRow (leaves : List Node) : List (Int × Nat) := countKeys (leaves.map (·.cell.row))

/-- The nodes on each column, by ascending column. -/
def countByColumn (leaves : List Node) : List (Int × Nat) := countKeys (leaves.map (·.cell.col))

/-- The bounding box of the nodes that are not blocks, as the least row and column and the
greatest row and column; all zero without such nodes. -/
def cellBounds (nodes : List Node) : Int × Int × Int × Int :=
  let leaves := nodes.filter fun n => !n.body.isBlock
  if leaves.isEmpty then (0, 0, 0, 0)
  else
    let rows := leaves.map (·.cell.row)
    let cols := leaves.map (·.cell.col)
    (minOr 0 rows, minOr 0 cols, maxOr 0 rows, maxOr 0 cols)

/-- The nodes that are not blocks at a cell. -/
def nodesAt (leaves : List Node) (row col : Int) : List Node :=
  leaves.filter fun n => n.cell.row == row && n.cell.col == col

/-- The first node that is not a block at a cell, if there is one. -/
def nodeAt (leaves : List Node) (row col : Int) : Option Node := (nodesAt leaves row col).head?

/-- Whether a node that is not a block stands at a cell. -/
def isOccupied (leaves : List Node) (row col : Int) : Bool := (nodeAt leaves row col).isSome

/-- The nodes of one kind, in the network's order, blocks included. -/
def Network.nodesOfKind (net : Network) (kind : String) : List Node :=
  net.nodes.filter (·.kind == kind)

/-- A cell is occupied exactly when some node stands at it. -/
theorem isOccupied_iff {leaves : List Node} {row col : Int} :
    isOccupied leaves row col = true ↔ ∃ n ∈ leaves, n.cell.row = row ∧ n.cell.col = col := by
  simp [isOccupied, nodeAt, nodesAt]

/-- The occupied cells are exactly the cells at which a node stands, so listing them and
asking cell by cell agree. -/
theorem mem_occupiedCells_iff {leaves : List Node} {row col : Int} :
    (row, col) ∈ occupiedCells leaves ↔ isOccupied leaves row col = true := by
  rw [isOccupied_iff, occupiedCells, List.mem_mergeSort, List.mem_eraseDups, List.mem_map]
  simp only [Prod.mk.injEq]

/-- Where two nodes share a cell, the node at it is the first of them. -/
example : (nodeAt [⟨"a", none, ⟨0, 1⟩, .contact .no ⟨.M, 1, none, none⟩⟩,
    ⟨"b", none, ⟨0, 1⟩, .contact .nc ⟨.M, 2, none, none⟩⟩] 0 1).map (·.id) = some "a" := by
  decide

end RelayLadder
