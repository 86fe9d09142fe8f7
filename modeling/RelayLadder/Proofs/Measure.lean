import RelayLadder.Proofs.WellFormed
import RelayLadder.Rung.Grid
import Mathlib

/-! # The grid of a built network

The grid measures recompute what the builder laid out. The tree of a network spans `h` rows and
`w` columns from the top-left cell, and its `k` taps stand in column `w`, one to a row from the
top. So the occupied grid is `w + 1` wide and as tall as the taller of the tree and the taps, or
exactly the span of the tree when there are no taps. No two nodes that are not blocks share a
cell, so every occupancy count counts each of them once, and the bounding box runs from the
top-left cell to the far corner of the grid.
-/

namespace RelayLadder

/-! ## Largest and smallest -/

section Extremes

variable {α : Type} [LinearOrder α]

/-- A fold by `max` ends at a bound that the list attains. -/
theorem foldl_max_eq {M x : α} {xs : List α} (hmem : M ∈ x :: xs) (hle : ∀ y ∈ x :: xs, y ≤ M) :
    xs.foldl max x = M := by
  induction xs generalizing x with
  | nil => exact (List.mem_singleton.mp hmem).symm
  | cons y ys ih =>
    have hx := hle x List.mem_cons_self
    have hy := hle y (List.mem_cons_of_mem _ List.mem_cons_self)
    rw [List.foldl_cons]
    apply ih
    · -- the larger of the first two is the bound when either of them is
      rcases List.mem_cons.mp hmem with rfl | hmem
      · rw [max_eq_left hy]
        exact List.mem_cons_self
      rcases List.mem_cons.mp hmem with rfl | hmem
      · rw [max_eq_right hx]
        exact List.mem_cons_self
      · exact List.mem_cons_of_mem _ hmem
    · intro z hz
      rcases List.mem_cons.mp hz with rfl | hz
      · exact max_le hx hy
      · exact hle z (List.mem_cons_of_mem _ (List.mem_cons_of_mem _ hz))

end Extremes

/-- The largest of a nonempty list is a bound that it attains. -/
theorem maxOr_map_eq {β : Type} (d : Int) {l : List β} {f : β → Int} {M : Int}
    (hmem : ∃ b ∈ l, f b = M) (hle : ∀ b ∈ l, f b ≤ M) : maxOr d (l.map f) = M := by
  obtain ⟨b, hb, rfl⟩ := hmem
  cases hl : l.map f with
  | nil => simp [List.map_eq_nil_iff.mp hl] at hb
  | cons x xs =>
    have hmem : f b ∈ x :: xs := hl ▸ List.mem_map_of_mem hb
    have hbound : ∀ y ∈ x :: xs, y ≤ f b := by
      intro y hy
      rw [← hl] at hy
      obtain ⟨c, hc, rfl⟩ := List.mem_map.mp hy
      exact hle c hc
    exact foldl_max_eq hmem hbound

/-- The smallest of a nonempty list is a bound that it attains: the largest in the dual
order. -/
theorem minOr_map_eq {β : Type} (d : Int) {l : List β} {f : β → Int} {m : Int}
    (hmem : ∃ b ∈ l, f b = m) (hle : ∀ b ∈ l, m ≤ f b) : minOr d (l.map f) = m := by
  obtain ⟨b, hb, rfl⟩ := hmem
  cases hl : l.map f with
  | nil => simp [List.map_eq_nil_iff.mp hl] at hb
  | cons x xs =>
    have hmem : f b ∈ x :: xs := hl ▸ List.mem_map_of_mem hb
    have hbound : ∀ y ∈ x :: xs, f b ≤ y := by
      intro y hy
      rw [← hl] at hy
      obtain ⟨c, hc, rfl⟩ := List.mem_map.mp hy
      exact hle c hc
    exact @foldl_max_eq Intᵒᵈ _ (f b) x xs hmem hbound

/-! ## Lists without repeats -/

section EraseDups

variable {α : Type} [BEq α] [LawfulBEq α]

theorem nodup_eraseDups : (l : List α) → l.eraseDups.Nodup
  | [] => by simp
  | a :: as => by
    rw [List.eraseDups_cons]
    have ih := nodup_eraseDups (as.filter fun b => !b == a)
    exact List.nodup_cons.mpr ⟨by simp [List.mem_eraseDups], ih⟩
termination_by l => l.length
decreasing_by exact Nat.lt_succ_of_le (List.length_filter_le _ _)

theorem eraseDups_eq_self {l : List α} (h : l.Nodup) : l.eraseDups = l := by
  induction l with
  | nil => simp
  | cons a as ih =>
    obtain ⟨ha, has⟩ := List.nodup_cons.mp h
    have hkeep : as.filter (fun b => !b == a) = as :=
      List.filter_eq_self.mpr fun b hb => by
        have : b ≠ a := fun hba => ha (hba ▸ hb)
        simpa using this
    rw [List.eraseDups_cons, hkeep, ih has]

/-- An element put last is kept exactly when it is new: a table in the order first met grows
only by the keys it has not seen. -/
theorem eraseDups_append_singleton (l : List α) (x : α) :
    (l ++ [x]).eraseDups = if x ∈ l then l.eraseDups else l.eraseDups ++ [x] := by
  rw [List.eraseDups_append]
  split
  · rename_i hx
    simp [List.removeAll, hx]
  · rename_i hx
    simp [List.removeAll, hx, List.eraseDups_cons]

end EraseDups

/-- A fold whose step takes the table of a prefix to the table of the prefix one element
longer builds the table of the whole list: how the tables kept in the order first met are
gathered. -/
theorem foldl_eq_of_step {α β : Type} (T : List α → β) {g : β → α → β}
    (hstep : ∀ l x, g (T l) x = T (l ++ [x])) (l more : List α) :
    more.foldl g (T l) = T (l ++ more) := by
  induction more generalizing l with
  | nil => simp
  | cons x more ih => rw [List.foldl_cons, hstep, ih, List.append_assoc, List.singleton_append]

/-! ## The measures of any nodes -/

@[simp] theorem Cell.row_empty : ({} : Cell).row = 0 := rfl

theorem Cell.eq_iff (a b : Cell) : a = b ↔ a.row = b.row ∧ a.col = b.col := by
  cases a
  cases b
  simp

theorem Cell.pair_injective : Function.Injective fun c : Cell => (c.row, c.col) := by
  intro a b h
  simp only [Prod.mk.injEq] at h
  exact (Cell.eq_iff a b).mpr h

/-- Every key is counted once, under its own entry. -/
theorem sum_countKeys (keys : List Int) : ((countKeys keys).map (·.2)).sum = keys.length := by
  have hperm : (keys.eraseDups.mergeSort (· ≤ ·)).Perm keys.dedup :=
    (List.mergeSort_perm _ _).trans <|
      (List.perm_ext_iff_of_nodup (nodup_eraseDups keys) (List.nodup_dedup keys)).mpr
        fun k => by simp [List.mem_eraseDups]
  calc ((countKeys keys).map (·.2)).sum
      = ((keys.eraseDups.mergeSort (· ≤ ·)).map fun k => keys.count k).sum := by
        rw [countKeys, List.map_map]
        rfl
    _ = (keys.dedup.map fun k => keys.count k).sum := (hperm.map _).sum_eq
    _ = keys.length := List.sum_map_count_dedup_eq_length keys

theorem sum_countByRow (leaves : List Node) :
    ((countByRow leaves).map (·.2)).sum = leaves.length := by
  rw [countByRow, sum_countKeys, List.length_map]

theorem sum_countByColumn (leaves : List Node) :
    ((countByColumn leaves).map (·.2)).sum = leaves.length := by
  rw [countByColumn, sum_countKeys, List.length_map]

section DistinctCells

variable {leaves : List Node} (h : (leaves.map (·.cell)).Nodup)
include h

/-- Nodes in distinct cells occupy as many cells as there are nodes. -/
theorem length_occupiedCells : (occupiedCells leaves).length = leaves.length := by
  have hpairs : (leaves.map fun n => (n.cell.row, n.cell.col)).Nodup := by
    have := h.map Cell.pair_injective
    rwa [List.map_map] at this
  rw [occupiedCells, List.length_mergeSort, eraseDups_eq_self hpairs, List.length_map]

/-- Among nodes in distinct cells, each is the only one at its cell. -/
theorem nodesAt_cell {m : Node} (hm : m ∈ leaves) :
    nodesAt leaves m.cell.row m.cell.col = [m] := by
  have hat : ∀ n : Node, (n.cell.row == m.cell.row && n.cell.col == m.cell.col) = true ↔
      n.cell = m.cell := by
    intro n
    simp [Cell.eq_iff]
  induction leaves with
  | nil => simp at hm
  | cons x xs ih =>
    obtain ⟨hx, hxs⟩ := List.nodup_cons.mp (List.map_cons ▸ h)
    rcases List.mem_cons.mp hm with rfl | hm
    · -- no later node shares the cell of the first
      have hrest : nodesAt xs m.cell.row m.cell.col = [] :=
        List.filter_eq_nil_iff.mpr fun n hn hnm =>
          hx ((hat n).mp hnm ▸ List.mem_map_of_mem hn)
      rw [nodesAt, List.filter_cons, if_pos ((hat m).mpr rfl)]
      exact congrArg (m :: ·) hrest
    · have hne : x.cell ≠ m.cell := fun hxm => hx (hxm ▸ List.mem_map_of_mem hm)
      have hskip : (x.cell.row == m.cell.row && x.cell.col == m.cell.col) = false :=
        Bool.eq_false_iff.mpr fun hxm => hne ((hat x).mp hxm)
      rw [nodesAt, List.filter_cons, hskip, if_neg Bool.false_ne_true]
      exact ih hxs hm

/-- Among nodes in distinct cells, the node at each one's cell is that node. -/
theorem nodeAt_cell {m : Node} (hm : m ∈ leaves) : nodeAt leaves m.cell.row m.cell.col = some m := by
  rw [nodeAt, nodesAt_cell h hm, List.head?_cons]

end DistinctCells

/-- The bounding box of the nodes that are not blocks of a network: the least row and column,
and the greatest, which are one less than the size of the grid. -/
theorem cellBounds_leafNodes (N : Network) (hne : N.leafNodes ≠ []) :
    cellBounds N.leafNodes = (minOr 0 (N.leafNodes.map (·.cell.row)),
      minOr 0 (N.leafNodes.map (·.cell.col)), (gridSize N.leafNodes).2 - 1,
      (gridSize N.leafNodes).1 - 1) := by
  have hleaves : N.leafNodes.filter (fun n => !n.body.isBlock) = N.leafNodes :=
    List.filter_eq_self.mpr fun n hn => (List.mem_filter.mp hn).2
  have hempty : N.leafNodes.isEmpty = false := List.isEmpty_eq_false_iff.mpr hne
  simp [cellBounds, gridSize, hleaves, hempty]

/-! ## The grid of a shape -/

namespace Shape

variable (s : Shape)

/-- The last column the network occupies: the taps' column, or without taps the tree's last. -/
def lastCol : Int := if 0 < s.taps.length then s.width else (s.width : Int) - 1

/-- The last row the network occupies: that of the taller of the tree and the taps. -/
def lastRow : Int := max (s.height : Int) s.taps.length - 1

theorem cell_of_mem_placedTaps {m : Node} (hm : m ∈ s.placedTaps) :
    ∃ i < s.taps.length, m.cell = ⟨i, s.width⟩ := by
  have hc : m.cell ∈ s.placedTaps.map (·.cell) := List.mem_map_of_mem hm
  rw [cells_placedTaps] at hc
  obtain ⟨i, hi, hic⟩ := List.mem_map.mp hc
  exact ⟨i, by simpa using hi, hic.symm⟩

theorem exists_placedTap {i : Nat} (hi : i < s.taps.length) :
    ∃ m ∈ s.placedTaps, m.cell = ⟨i, s.width⟩ := by
  have hc : (⟨i, s.width⟩ : Cell) ∈ s.placedTaps.map (·.cell) := by
    rw [cells_placedTaps]
    exact List.mem_map.mpr ⟨i, by simpa using hi, rfl⟩
  obtain ⟨m, hm, hmc⟩ := List.mem_map.mp hc
  exact ⟨m, hm, hmc⟩

theorem length_placedTaps : s.placedTaps.length = s.taps.length := by
  simp [placedTaps]

theorem width_of_tree_none (h : s.tree = none) : s.width = 0 := by
  simp [width, h]

theorem height_of_tree_none (h : s.tree = none) : s.height = 0 := by
  simp [height, h]

variable (step : Int) (comment : Option String)

theorem mem_leafNodes_of_placedLeaves {b : Branch} (h : s.tree = some b) {m : Node}
    (hm : m ∈ b.placedLeaves {}) : m ∈ (s.network step comment).leafNodes := by
  rw [leafNodes_network, h]
  exact List.mem_append_left _ hm

theorem mem_leafNodes_of_placedTaps {m : Node} (hm : m ∈ s.placedTaps) :
    m ∈ (s.network step comment).leafNodes := by
  rw [leafNodes_network]
  exact List.mem_append_right _ hm

/-- A node that is not a block lies in the tree's span from the top-left cell, or is a tap in
the column right of it, on one of the first rows. -/
theorem cell_of_mem_leafNodes {m : Node} (hm : m ∈ (s.network step comment).leafNodes) :
    0 ≤ m.cell.row ∧ 0 ≤ m.cell.col ∧
      (m.cell.row < s.height ∧ m.cell.col < s.width ∨
        m.cell.row < s.taps.length ∧ m.cell.col = s.width) := by
  rw [leafNodes_network] at hm
  rcases List.mem_append.mp hm with hm | hm
  · cases h : s.tree with
    | none => simp [h] at hm
    | some b =>
      rw [h] at hm
      have := b.mem_placedLeaves_inside hm
      simp only [zero_add] at this
      simp only [height, width, h, Option.elim]
      omega
  · obtain ⟨i, hi, hc⟩ := s.cell_of_mem_placedTaps hm
    simp only [hc, and_true]
    omega

/-- A network with a node that is not a block has a tree or a tap. -/
theorem tree_or_taps (hne : (s.network step comment).leafNodes ≠ []) :
    (∃ b, s.tree = some b) ∨ 0 < s.taps.length := by
  cases h : s.tree with
  | some b => exact .inl ⟨b, rfl⟩
  | none =>
    right
    rw [leafNodes_network, h] at hne
    have : s.placedTaps ≠ [] := by simpa using hne
    simpa [placedTaps, List.length_pos_iff] using this

/-- A network with a node that is not a block, and with no more taps than its tree has rows,
has a tree. -/
theorem exists_tree (hne : (s.network step comment).leafNodes ≠ [])
    (hk : s.taps.length ≤ s.height) : ∃ b, s.tree = some b := by
  cases h : s.tree with
  | some b => exact ⟨b, rfl⟩
  | none =>
    rcases s.tree_or_taps step comment hne with ⟨b, hb⟩ | hk'
    · simp [h] at hb
    · rw [s.height_of_tree_none h] at hk
      omega

theorem exists_leafNodes_origin (hne : (s.network step comment).leafNodes ≠ []) :
    ∃ m ∈ (s.network step comment).leafNodes, m.cell = {} := by
  cases h : s.tree with
  | some b =>
    obtain ⟨m, hm, hmc⟩ := b.placedLeaves_corner {}
    exact ⟨m, s.mem_leafNodes_of_placedLeaves step comment h hm, hmc⟩
  | none =>
    -- without a tree the taps stand in the first column
    have hk : 0 < s.taps.length := (s.tree_or_taps step comment hne).resolve_left (by simp [h])
    obtain ⟨m, hm, hmc⟩ := s.exists_placedTap hk
    refine ⟨m, s.mem_leafNodes_of_placedTaps step comment hm, ?_⟩
    rw [hmc, s.width_of_tree_none h]
    rfl

theorem exists_leafNodes_lastRow (hne : (s.network step comment).leafNodes ≠ []) :
    ∃ m ∈ (s.network step comment).leafNodes, m.cell.row = s.lastRow := by
  by_cases hk : s.height < s.taps.length
  · obtain ⟨m, hm, hmc⟩ := s.exists_placedTap (Nat.sub_one_lt_of_lt hk)
    refine ⟨m, s.mem_leafNodes_of_placedTaps step comment hm, ?_⟩
    rw [hmc, lastRow]
    simp only
    omega
  · obtain ⟨b, h⟩ := s.exists_tree step comment hne (by omega)
    have hh : s.height = b.span.rows := by simp [height, h]
    obtain ⟨⟨m, hm, hmr⟩, -⟩ := b.placedLeaves_reach {}
    refine ⟨m, s.mem_leafNodes_of_placedLeaves step comment h hm, ?_⟩
    rw [hmr, lastRow, Cell.row_empty]
    omega

theorem exists_leafNodes_lastCol (hne : (s.network step comment).leafNodes ≠ []) :
    ∃ m ∈ (s.network step comment).leafNodes, m.cell.col = s.lastCol := by
  by_cases hk : 0 < s.taps.length
  · obtain ⟨m, hm, hmc⟩ := s.exists_placedTap hk
    refine ⟨m, s.mem_leafNodes_of_placedTaps step comment hm, ?_⟩
    rw [hmc, lastCol, if_pos hk]
  · obtain ⟨b, h⟩ := s.exists_tree step comment hne (by omega)
    obtain ⟨-, ⟨m, hm, hmc⟩⟩ := b.placedLeaves_reach {}
    refine ⟨m, s.mem_leafNodes_of_placedLeaves step comment h hm, ?_⟩
    rw [hmc, lastCol, if_neg hk]
    simp [width, h]

theorem row_le_lastRow {m : Node} (hm : m ∈ (s.network step comment).leafNodes) :
    m.cell.row ≤ s.lastRow := by
  have := s.cell_of_mem_leafNodes step comment hm
  rw [lastRow]
  omega

theorem col_le_lastCol {m : Node} (hm : m ∈ (s.network step comment).leafNodes) :
    m.cell.col ≤ s.lastCol := by
  have := s.cell_of_mem_leafNodes step comment hm
  rw [lastCol]
  split <;> omega

theorem gridSize_network_of_ne_nil (hne : (s.network step comment).leafNodes ≠ []) :
    gridSize (s.network step comment).leafNodes = (s.lastCol + 1, s.lastRow + 1) := by
  have hempty : (s.network step comment).leafNodes.isEmpty = false :=
    List.isEmpty_eq_false_iff.mpr hne
  rw [gridSize, hempty, if_neg Bool.false_ne_true,
    maxOr_map_eq 0 (s.exists_leafNodes_lastCol step comment hne)
      (fun m hm => s.col_le_lastCol step comment hm),
    maxOr_map_eq 0 (s.exists_leafNodes_lastRow step comment hne)
      (fun m hm => s.row_le_lastRow step comment hm)]

/-- The grid is one column wider than the tree and as tall as the taller of the tree and the
taps when there are taps, and exactly the tree's span otherwise. -/
theorem gridSize_network : gridSize (s.network step comment).leafNodes =
    if 0 < s.taps.length then ((s.width : Int) + 1, max (s.height : Int) s.taps.length)
    else ((s.width : Int), (s.height : Int)) := by
  by_cases hne : (s.network step comment).leafNodes = []
  · -- no node that is not a block: neither a tree nor a tap
    have htree : s.tree = none := by
      cases h : s.tree with
      | none => rfl
      | some b =>
        obtain ⟨m, hm, -⟩ := b.placedLeaves_corner {}
        have := s.mem_leafNodes_of_placedLeaves step comment h hm
        simp [hne] at this
    have htaps : ¬ 0 < s.taps.length := by
      intro hk
      obtain ⟨m, hm, -⟩ := s.exists_placedTap hk
      have := s.mem_leafNodes_of_placedTaps step comment hm
      simp [hne] at this
    rw [if_neg htaps, s.width_of_tree_none htree, s.height_of_tree_none htree, hne]
    rfl
  · rw [s.gridSize_network_of_ne_nil step comment hne, lastCol, lastRow]
    by_cases hk : 0 < s.taps.length
    · simp only [if_pos hk, Prod.mk.injEq, true_and]
      omega
    · simp only [if_neg hk, Prod.mk.injEq]
      omega

/-- The bounding box runs from the top-left cell to the last row and column occupied. -/
theorem cellBounds_network (hne : (s.network step comment).leafNodes ≠ []) :
    cellBounds (s.network step comment).leafNodes = (0, 0, s.lastRow, s.lastCol) := by
  obtain ⟨o, ho, hoc⟩ := s.exists_leafNodes_origin step comment hne
  rw [cellBounds_leafNodes _ hne, s.gridSize_network_of_ne_nil step comment hne,
    minOr_map_eq 0 ⟨o, ho, by rw [hoc]⟩
      (fun m hm => (s.cell_of_mem_leafNodes step comment hm).1),
    minOr_map_eq 0 ⟨o, ho, by rw [hoc]⟩
      (fun m hm => (s.cell_of_mem_leafNodes step comment hm).2.1)]
  simp

theorem leafNodes_cells_nodup : ((s.network step comment).leafNodes.map (·.cell)).Nodup := by
  rw [leafNodes_network, List.map_append, List.nodup_append]
  refine ⟨?tree, ?taps, ?apart⟩
  case tree =>
    cases s.tree with
    | none => exact List.nodup_nil
    | some b => exact b.placedLeaves_cells_nodup {}
  case taps =>
    rw [cells_placedTaps]
    refine (List.nodup_range' 1 Nat.one_pos).map ?_
    intro i j hij
    have := congrArg Cell.row hij
    simp only at this
    omega
  case apart =>
    -- the tree keeps left of the taps' column
    intro x hx y hy hxy
    obtain ⟨mx, hmx, rfl⟩ := List.mem_map.mp hx
    obtain ⟨my, hmy, rfl⟩ := List.mem_map.mp hy
    have htree := s.cell_of_mem_leafNodes step comment
      (by rw [leafNodes_network]; exact List.mem_append_left _ hmx)
    obtain ⟨i, -, hi⟩ := s.cell_of_mem_placedTaps hmy
    have hcol := congrArg Cell.col hxy
    rw [hi] at hcol
    cases h : s.tree with
    | none => simp [h] at hmx
    | some b =>
      rw [h] at hmx
      have := b.mem_placedLeaves_inside hmx
      simp only [zero_add] at this
      simp only [width, h, Option.elim] at hcol
      omega

end Shape

/-! ## The grid of a built network -/

/-- The grid measures of a network agree with the span of its tree, `h` rows by `w` columns
as layout gives it, or none without a root: the grid is one column wider than the tree and as
tall as the taller of the tree and the taps, or exactly the tree without taps; no two nodes
that are not blocks share a cell, so each is counted once by every occupancy measure and is
the only node at its cell; and the bounding box runs from the top-left cell to the far corner
of the grid. -/
structure Network.GridMatches (N : Network) (h w : Nat) : Prop where
  span : N.root? = none ∧ h = 0 ∧ w = 0 ∨
    ∃ r, N.root? = some r ∧ layout N.nodes r = .ok (N.walk, ⟨h, w⟩)
  gridSize_eq : gridSize N.leafNodes =
    if 0 < N.taps.length then ((w : Int) + 1, max (h : Int) N.taps.length)
    else ((w : Int), (h : Int))
  cells_nodup : (N.leafNodes.map (·.cell)).Nodup
  length_occupiedCells : (occupiedCells N.leafNodes).length = N.leafNodes.length
  sum_countByRow : ((countByRow N.leafNodes).map (·.2)).sum = N.leafNodes.length
  sum_countByColumn : ((countByColumn N.leafNodes).map (·.2)).sum = N.leafNodes.length
  nodesAt_cell : ∀ m ∈ N.leafNodes, nodesAt N.leafNodes m.cell.row m.cell.col = [m]
  cellBounds_eq : N.leafNodes ≠ [] →
    cellBounds N.leafNodes = (0, 0, (gridSize N.leafNodes).2 - 1, (gridSize N.leafNodes).1 - 1)

theorem Shape.gridMatches_network (s : Shape) (step : Int) (comment : Option String) :
    (s.network step comment).GridMatches s.height s.width := by
  have hcells := s.leafNodes_cells_nodup step comment
  have htaps : (s.network step comment).taps.length = s.taps.length := by
    rw [s.taps_network, s.length_placedTaps]
  refine ⟨?span, ?size, hcells, length_occupiedCells hcells, sum_countByRow _,
    sum_countByColumn _, fun m hm => nodesAt_cell hcells hm, ?bounds⟩
  case span =>
    cases h : s.tree with
    | none =>
      refine .inl ⟨?_, s.height_of_tree_none h, s.width_of_tree_none h⟩
      simp [s.root?_network, h]
    | some b =>
      have hr : (s.network step comment).root? = some (b.root.placeAt {}) := by
        simp [s.root?_network, h]
      exact .inr ⟨_, hr, s.layout_network step comment hr⟩
  case size =>
    rw [htaps]
    exact s.gridSize_network step comment
  case bounds =>
    intro hne
    rw [s.cellBounds_network step comment hne, s.gridSize_network_of_ne_nil step comment hne]
    simp

/-- Every network of a built program is measured as it was laid out. -/
theorem measures_built_network {rows : List Row} {N : Network}
    (hN : N ∈ (buildProgram rows).networks) : ∃ h w, N.GridMatches h w := by
  obtain ⟨st, -, ⟨s, rfl, -⟩, -⟩ := exists_step_of_mem_networks hN
  exact ⟨_, _, s.gridMatches_network _ _⟩

/-- Two series branches in parallel, each two cells wide, and one coil. -/
theorem measures_parallel_series :
    ∃ N ∈ (buildProgram [
      { sequence := 1, step := 0, instruction := "LOAD", operand1 := some "M0001" },
      { sequence := 2, step := 0, instruction := "AND", operand1 := some "M0002" },
      { sequence := 3, step := 0, instruction := "LOAD", operand1 := some "M0003" },
      { sequence := 4, step := 0, instruction := "AND", operand1 := some "M0004" },
      { sequence := 5, step := 0, instruction := "ORB" },
      { sequence := 6, step := 0, instruction := "OUT", operand1 := some "M0010" }]).networks,
      ∃ h w, N.GridMatches h w := by
  refine ⟨_, List.head_mem ?nonempty, measures_built_network (List.head_mem ?nonempty)⟩
  case nonempty => exact networks_buildProgram_ne_nil (List.cons_ne_nil _ _)

end RelayLadder
