import RelayLadder.Proofs.Unfold
import RelayLadder.Proofs.Placement
import RelayLadder.Proofs.Measure

/-! # Trees laid out as tiles

A rung tree of any shape is laid out as tiles. A leaf is one cell; a block joins the rectangles
of its children side by side (series) or stacked (parallel), starting at its own cell; a block
without children still takes one cell (`Span.ofNode`). `Trees.placed` places a forest by this
rule, as a plain recursion beside the two passes of layout.

Every leaf lands inside the rectangle of its tree, no two leaves share a cell, and every block
sits at the cell of its first child. When no block is empty the leaves reach the first cell, the
last row and the last column of the rectangle, so their bounding box is the rectangle itself.
-/

namespace RelayLadder

/-! ## Spans by the rule of the children -/

namespace Span

/-- Pieces side by side: as tall as the tallest, as wide as all of them together. -/
def beside (ss : List Span) : Span := ⟨(ss.map (·.rows)).foldr max 0, (ss.map (·.cols)).sum⟩

/-- Pieces stacked: as tall as all of them together, as wide as the widest. -/
def stacked (ss : List Span) : Span := ⟨(ss.map (·.rows)).sum, (ss.map (·.cols)).foldr max 0⟩

/-- Pieces joined by a wiring: side by side in series, stacked in parallel. -/
def joined : Wiring → List Span → Span
  | .series, ss => beside ss
  | .parallel, ss => stacked ss

/-- The span of a node whose children span `ss`: a block joins its children, and a leaf or a
block without children is one cell. -/
def ofNode (b : NodeBody) (ss : List Span) : Span :=
  match b with
  | .block w _ => if ss = [] then unit else joined w ss
  | _ => unit

/-- Two pieces joined by a wiring. -/
def adjoin : Wiring → Span → Span → Span
  | .series, a, b => ⟨max a.rows b.rows, a.cols + b.cols⟩
  | .parallel, a, b => ⟨a.rows + b.rows, max a.cols b.cols⟩

/-- A cell lies in the rectangle that a span covers from a corner. -/
def Covers (s : Span) (corner c : Cell) : Prop :=
  corner.row ≤ c.row ∧ c.row < corner.row + s.rows ∧ corner.col ≤ c.col ∧
    c.col < corner.col + s.cols

@[simp] theorem joined_nil (w : Wiring) : joined w [] = ⟨0, 0⟩ := by
  cases w <;> rfl

theorem joined_cons (w : Wiring) (s : Span) (ss : List Span) :
    joined w (s :: ss) = adjoin w s (joined w ss) := by
  cases w <;> simp [joined, beside, stacked, adjoin]

theorem le_adjoin (w : Wiring) (a b : Span) :
    a.rows ≤ (adjoin w a b).rows ∧ a.cols ≤ (adjoin w a b).cols := by
  cases w <;> simp only [adjoin] <;> omega

@[simp] theorem adjoin_zero (w : Wiring) (a : Span) : adjoin w a ⟨0, 0⟩ = a := by
  cases w <;> simp [adjoin]

theorem ofNode_of_isBlock_eq_false {b : NodeBody} (hb : b.isBlock = false) (ss : List Span) :
    ofNode b ss = unit := by
  cases b <;> simp_all [ofNode, NodeBody.isBlock]

theorem ofNode_block (w : Wiring) (ids : List String) {ss : List Span} (hss : ss ≠ []) :
    ofNode (.block w ids) ss = joined w ss := by
  simp [ofNode, hss]

/-- A node spans at least one cell when each of its children does. -/
theorem ofNode_pos (b : NodeBody) {ss : List Span} (h : ∀ s ∈ ss, 0 < s.rows ∧ 0 < s.cols) :
    0 < (ofNode b ss).rows ∧ 0 < (ofNode b ss).cols := by
  cases b with
  | block w ids =>
    cases ss with
    | nil => simp [ofNode, unit]
    | cons s ss =>
      have hs := h s List.mem_cons_self
      have hle := le_adjoin w s (joined w ss)
      rw [ofNode_block w ids (List.cons_ne_nil s ss), joined_cons]
      omega
  | _ => simp [ofNode, unit]

theorem Covers.mono {s s' : Span} {corner c : Cell} (h : s.Covers corner c)
    (hr : s.rows ≤ s'.rows) (hc : s.cols ≤ s'.cols) : s'.Covers corner c := by
  unfold Covers at *
  omega

theorem foldl_max_eq_max_foldr (xs : List Nat) (a : Nat) :
    xs.foldl max a = max a (xs.foldr max 0) := by
  induction xs generalizing a with
  | nil => simp
  | cons x xs ih => simp [ih, Nat.max_assoc]

/-- The formula layout computes a block's span with agrees with the rule, once every child spans
at least a cell: its default of one cell matters only for a block without children. -/
theorem join_eq_ofNode (w : Wiring) (ids : List String) {ss : List Span}
    (h : ∀ s ∈ ss, 0 < s.rows ∧ 0 < s.cols) : join w ss = ofNode (.block w ids) ss := by
  cases ss with
  | nil => cases w <;> rfl
  | cons s ss =>
    have hs := h s List.mem_cons_self
    rw [ofNode_block w ids (List.cons_ne_nil s ss)]
    have hsum : ∀ l : List Nat, l.foldr (· + ·) 0 = l.sum := fun _ => rfl
    cases w <;> simp only [join, joined, beside, stacked, List.map_cons, List.foldl_cons,
      foldl_max_eq_max_foldr, List.foldr_cons, List.sum_cons, hsum, Span.mk.injEq] <;> omega

end Span

/-! ## Forests placed by the rule -/

namespace Node

@[simp] theorem id_placeAt (n : Node) (c : Cell) : (n.placeAt c).id = n.id := rfl
@[simp] theorem body_placeAt (n : Node) (c : Cell) : (n.placeAt c).body = n.body := rfl
@[simp] theorem cell_placeAt (n : Node) (c : Cell) : (n.placeAt c).cell = c := rfl
@[simp] theorem placeAt_placeAt (n : Node) (c c' : Cell) : (n.placeAt c).placeAt c' = n.placeAt c' :=
  rfl

end Node

/-- The wiring that joins a node's children: a block's own, and series for a leaf, which has no
children to join. -/
def NodeBody.wiring : NodeBody → Wiring
  | .block w _ => w
  | _ => .series

theorem NodeBody.exists_of_isBlock {b : NodeBody} (hb : b.isBlock = true) :
    ∃ w ids, b = .block w ids := by
  cases b with
  | block w ids => exact ⟨w, ids, rfl⟩
  | contact | coil | timer | counter | comparison | math => simp [NodeBody.isBlock] at hb

theorem NodeBody.children_of_isBlock_eq_false {b : NodeBody} (hb : b.isBlock = false) :
    b.children = [] := by
  cases b with
  | block => simp [NodeBody.isBlock] at hb
  | contact | coil | timer | counter | comparison | math => rfl

namespace Trees

/-- The roots of the trees, in order. -/
def roots : Trees → List Node
  | nil => []
  | cons n _ rest => n :: rest.roots

/-- The span of each tree, by the rule of `Span.ofNode`. -/
def spans : Trees → List Span
  | nil => []
  | cons n kids rest => Span.ofNode n.body kids.spans :: rest.spans

/-- Every node of the trees with the span of the tree under it, in pre-order. -/
def spanTable : Trees → List (String × Span)
  | nil => []
  | cons n kids rest =>
    (n.id, Span.ofNode n.body kids.spans) :: (kids.spanTable ++ rest.spanTable)

/-- The cell each tree starts at when the trees are joined by a wiring from a cell. -/
def starts (w : Wiring) : Cell → Trees → List (String × Cell)
  | _, nil => []
  | c, cons n kids rest => (n.id, c) :: rest.starts w (w.next c (Span.ofNode n.body kids.spans))

/-- The nodes of the trees in pre-order, each at its cell: the trees are joined by a wiring from
a cell, and the children of a node by the node's own wiring from the node's cell. -/
def placed (w : Wiring) : Cell → Trees → List Node
  | _, nil => []
  | c, cons n kids rest =>
    n.placeAt c :: (kids.placed n.body.wiring c ++
      rest.placed w (w.next c (Span.ofNode n.body kids.spans)))

/-- Each node names as its children, in order, the roots of the trees under it. -/
def Linked : Trees → Prop
  | nil => True
  | cons n kids rest => n.body.children = kids.roots.map (·.id) ∧ kids.Linked ∧ rest.Linked

@[simp] theorem roots_nil : nil.roots = [] := rfl
@[simp] theorem roots_cons (n : Node) (kids rest : Trees) :
    (cons n kids rest).roots = n :: rest.roots := rfl
@[simp] theorem spans_nil : nil.spans = [] := rfl
@[simp] theorem spans_cons (n : Node) (kids rest : Trees) :
    (cons n kids rest).spans = Span.ofNode n.body kids.spans :: rest.spans := rfl
@[simp] theorem spanTable_nil : nil.spanTable = [] := rfl
@[simp] theorem spanTable_cons (n : Node) (kids rest : Trees) :
    (cons n kids rest).spanTable =
      (n.id, Span.ofNode n.body kids.spans) :: (kids.spanTable ++ rest.spanTable) := rfl
@[simp] theorem starts_nil (w : Wiring) (c : Cell) : nil.starts w c = [] := rfl
@[simp] theorem starts_cons (w : Wiring) (c : Cell) (n : Node) (kids rest : Trees) :
    (cons n kids rest).starts w c =
      (n.id, c) :: rest.starts w (w.next c (Span.ofNode n.body kids.spans)) := rfl
@[simp] theorem placed_nil (w : Wiring) (c : Cell) : nil.placed w c = [] := rfl
@[simp] theorem placed_cons (w : Wiring) (c : Cell) (n : Node) (kids rest : Trees) :
    (cons n kids rest).placed w c = n.placeAt c :: (kids.placed n.body.wiring c ++
      rest.placed w (w.next c (Span.ofNode n.body kids.spans))) := rfl
@[simp] theorem linked_nil : nil.Linked := trivial
@[simp] theorem linked_cons (n : Node) (kids rest : Trees) :
    (cons n kids rest).Linked ↔
      n.body.children = kids.roots.map (·.id) ∧ kids.Linked ∧ rest.Linked := Iff.rfl

theorem roots_eq_nil_iff (t : Trees) : t.roots = [] ↔ t = nil := by
  cases t <;> simp

theorem spans_eq_nil_iff (t : Trees) : t.spans = [] ↔ t = nil := by
  cases t <;> simp

theorem keys_spanTable (t : Trees) : t.spanTable.map (·.1) = t.nodes.map (·.id) := by
  induction t with
  | nil => rfl
  | cons n kids rest ihk ihr => simp [ihk, ihr]

theorem keys_starts (w : Wiring) (c : Cell) (t : Trees) :
    (t.starts w c).map (·.1) = t.roots.map (·.id) := by
  induction t generalizing c with
  | nil => rfl
  | cons n kids rest _ ihr => simp [ihr]

/-- Every tree spans at least one cell. -/
theorem spans_pos (t : Trees) : ∀ s ∈ t.spans, 0 < s.rows ∧ 0 < s.cols := by
  induction t with
  | nil => simp
  | cons n kids rest ihk ihr =>
    intro s hs
    rcases List.mem_cons.mp hs with rfl | hs
    · exact Span.ofNode_pos n.body ihk
    · exact ihr s hs

/-- A leaf has no trees under it. -/
theorem eq_nil_of_children {n : Node} {kids : Trees} (hch : n.body.children = kids.roots.map (·.id))
    (hb : n.body.isBlock = false) : kids = nil := by
  rw [NodeBody.children_of_isBlock_eq_false hb, eq_comm, List.map_eq_nil_iff, roots_eq_nil_iff] at hch
  exact hch

/-- The children of a node, joined, fit in the node's span. -/
theorem joined_le_ofNode {n : Node} {kids : Trees} (hch : n.body.children = kids.roots.map (·.id)) :
    (Span.joined n.body.wiring kids.spans).rows ≤ (Span.ofNode n.body kids.spans).rows ∧
      (Span.joined n.body.wiring kids.spans).cols ≤ (Span.ofNode n.body kids.spans).cols := by
  by_cases hk : kids = nil
  · subst hk
    simp
  · have hb : n.body.isBlock = true := by
      by_contra hb
      exact hk (eq_nil_of_children hch (by simpa using hb))
    obtain ⟨w, ids, hw⟩ := NodeBody.exists_of_isBlock hb
    rw [hw, Span.ofNode_block w ids (by simpa [spans_eq_nil_iff] using hk)]
    simp [NodeBody.wiring]

/-! ## Where the nodes go -/

/-- Placing changes nothing but the cells. -/
theorem placed_placeAt (w : Wiring) (c : Cell) (t : Trees) :
    (t.placed w c).map (·.placeAt {}) = t.nodes.map (·.placeAt {}) := by
  induction t generalizing w c with
  | nil => rfl
  | cons n kids rest ihk ihr => simp [ihk, ihr]

/-- Every leaf lies in the rectangle that its trees span together from their cell. -/
theorem placed_covers {t : Trees} (hl : t.Linked) (w : Wiring) (c : Cell) :
    ∀ m ∈ t.placed w c, m.body.isBlock = false → (Span.joined w t.spans).Covers c m.cell := by
  induction t generalizing w c with
  | nil => simp
  | cons n kids rest ihk ihr =>
    obtain ⟨hch, hlk, hlr⟩ := hl
    have hs := Span.ofNode_pos n.body kids.spans_pos
    have hle := Span.le_adjoin w (Span.ofNode n.body kids.spans) (Span.joined w rest.spans)
    have hkid := joined_le_ofNode hch
    rw [spans_cons, Span.joined_cons]
    intro m hm hleaf
    rcases List.mem_cons.mp hm with rfl | hm
    · -- the node itself sits at the corner
      simp only [Span.Covers, Node.cell_placeAt]
      omega
    rcases List.mem_append.mp hm with hm | hm
    · -- the tree under the node fits in the node's own tile
      exact (ihk hlk _ c m hm hleaf).mono (by omega) (by omega)
    · -- the later trees start past the first tile
      have := ihr hlr w _ m hm hleaf
      cases w <;> simp only [Span.Covers, Span.adjoin, Wiring.next] at this ⊢ <;> omega

/-- The leaves of one tree lie in the tree's own tile. -/
theorem placed_covers_tree {n : Node} {kids : Trees} (hch : n.body.children = kids.roots.map (·.id))
    (hlk : kids.Linked) (c : Cell) :
    ∀ m ∈ n.placeAt c :: kids.placed n.body.wiring c, m.body.isBlock = false →
      (Span.ofNode n.body kids.spans).Covers c m.cell := by
  simpa [Span.joined_cons] using placed_covers (t := cons n kids nil) ⟨hch, hlk, trivial⟩ .series c

/-- No two leaves share a cell: the leaves of each tree lie in its own tile, and the tiles of
the trees one after the other do not overlap. -/
theorem placed_cells_nodup {t : Trees} (hl : t.Linked) (w : Wiring) (c : Cell) :
    (((t.placed w c).filter fun m => !m.body.isBlock).map (·.cell)).Nodup := by
  induction t generalizing w c with
  | nil => simp
  | cons n kids rest ihk ihr =>
    obtain ⟨hch, hlk, hlr⟩ := hl
    have hs := Span.ofNode_pos n.body kids.spans_pos
    have hhead := placed_covers_tree hch hlk c
    have hrest := placed_covers hlr w (w.next c (Span.ofNode n.body kids.spans))
    rw [placed_cons, ← List.cons_append, List.filter_append, List.map_append, List.nodup_append]
    refine ⟨?head, ihr hlr w _, ?apart⟩
    case head =>
      cases hb : n.body.isBlock
      · rw [eq_nil_of_children hch hb]
        simp [hb]
      · simpa [hb] using ihk hlk n.body.wiring c
    case apart =>
      intro x hx y hy hxy
      obtain ⟨mx, hmx, rfl⟩ := List.mem_map.mp hx
      obtain ⟨my, hmy, rfl⟩ := List.mem_map.mp hy
      simp only [List.mem_filter, Bool.not_eq_true'] at hmx hmy
      have h1 := hhead mx hmx.1 hmx.2
      have h2 := hrest my hmy.1 hmy.2
      rw [hxy] at h1
      cases w <;> simp only [Span.Covers, Wiring.next] at h1 h2 <;> omega

/-- Every block sits at the cell of its first child. -/
theorem placed_first_child {t : Trees} (hl : t.Linked) (w : Wiring) (c : Cell) :
    ∀ m ∈ t.placed w c, ∀ cw i is, m.body = .block cw (i :: is) →
      ∃ m' ∈ t.placed w c, m'.id = i ∧ m'.cell = m.cell := by
  induction t generalizing w c with
  | nil => simp
  | cons n kids rest ihk ihr =>
    obtain ⟨hch, hlk, hlr⟩ := hl
    intro m hm cw i is hb
    rw [placed_cons] at hm ⊢
    rcases List.mem_cons.mp hm with rfl | hm
    · -- the first child is the root of the first tree under the block, placed at its cell
      have hroots : kids.roots.map (·.id) = i :: is := by
        rw [← hch]
        simpa [Node.placeAt, NodeBody.children] using congrArg NodeBody.children hb
      cases kids with
      | nil => simp at hroots
      | cons k kk kr =>
        simp only [roots_cons, List.map_cons, List.cons.injEq] at hroots
        exact ⟨k.placeAt c, by simp, hroots.1, rfl⟩
    rcases List.mem_append.mp hm with hm | hm
    · obtain ⟨m', hm', h⟩ := ihk hlk _ c m hm cw i is hb
      exact ⟨m', List.mem_cons_of_mem _ (List.mem_append_left _ hm'), h⟩
    · obtain ⟨m', hm', h⟩ := ihr hlr _ _ m hm cw i is hb
      exact ⟨m', List.mem_cons_of_mem _ (List.mem_append_right _ hm'), h⟩

end Trees

/-! ## The leaves reach the sides of the rectangle -/

/-- Leaves among nodes reach the first cell, the last row and the last column of the
rectangle that a span covers from a corner. -/
structure Reaches (ns : List Node) (c : Cell) (s : Span) : Prop where
  corner : ∃ m ∈ ns, m.body.isBlock = false ∧ m.cell = c
  lastRow : ∃ m ∈ ns, m.body.isBlock = false ∧ m.cell.row = c.row + s.rows - 1
  lastCol : ∃ m ∈ ns, m.body.isBlock = false ∧ m.cell.col = c.col + s.cols - 1

namespace Reaches

/-- A leaf alone reaches every side of the one cell it takes. -/
theorem leaf {n : Node} (hb : n.body.isBlock = false) (c : Cell) (ns : List Node) :
    Reaches (n.placeAt c :: ns) c Span.unit :=
  ⟨⟨_, List.mem_cons_self, hb, rfl⟩, ⟨_, List.mem_cons_self, hb, by simp [Span.unit]⟩,
    ⟨_, List.mem_cons_self, hb, by simp [Span.unit]⟩⟩

theorem mono {ns ns' : List Node} {c : Cell} {s : Span} (h : Reaches ns c s)
    (hsub : ∀ m ∈ ns, m ∈ ns') : Reaches ns' c s where
  corner := let ⟨m, hm, h⟩ := h.corner; ⟨m, hsub m hm, h⟩
  lastRow := let ⟨m, hm, h⟩ := h.lastRow; ⟨m, hsub m hm, h⟩
  lastCol := let ⟨m, hm, h⟩ := h.lastCol; ⟨m, hsub m hm, h⟩

/-- Two pieces joined by a wiring, the second starting where the wiring puts it: the first
cell is the first piece's, and each far side belongs to the piece that reaches further. -/
theorem adjoin {ns ns' : List Node} {c : Cell} {a b : Span} (w : Wiring) (ha : Reaches ns c a)
    (hb : Reaches ns' (w.next c a) b) : Reaches (ns ++ ns') c (Span.adjoin w a b) := by
  have inl : ∀ m ∈ ns, m ∈ ns ++ ns' := fun m hm => List.mem_append_left _ hm
  have inr : ∀ m ∈ ns', m ∈ ns ++ ns' := fun m hm => List.mem_append_right _ hm
  obtain ⟨⟨m₀, hm₀, hb₀, hc₀⟩, ⟨ma, hma, hba, hra⟩, ⟨ma', hma', hba', hca⟩⟩ := ha
  obtain ⟨-, ⟨mb, hmb, hbb, hrb⟩, ⟨mb', hmb', hbb', hcb⟩⟩ := hb
  refine ⟨⟨m₀, inl _ hm₀, hb₀, hc₀⟩, ?_, ?_⟩
  · cases w with
    | series =>
      simp only [Wiring.next] at hrb
      by_cases hle : b.rows ≤ a.rows
      · exact ⟨ma, inl _ hma, hba, by simp only [Span.adjoin]; omega⟩
      · exact ⟨mb, inr _ hmb, hbb, by simp only [Span.adjoin]; omega⟩
    | parallel =>
      simp only [Wiring.next] at hrb
      exact ⟨mb, inr _ hmb, hbb, by simp only [Span.adjoin]; omega⟩
  · cases w with
    | series =>
      simp only [Wiring.next] at hcb
      exact ⟨mb', inr _ hmb', hbb', by simp only [Span.adjoin]; omega⟩
    | parallel =>
      simp only [Wiring.next] at hcb
      by_cases hle : b.cols ≤ a.cols
      · exact ⟨ma', inl _ hma', hba', by simp only [Span.adjoin]; omega⟩
      · exact ⟨mb', inr _ hmb', hbb', by simp only [Span.adjoin]; omega⟩

end Reaches

namespace Trees

/-- Without empty blocks, the leaves of a forest reach the sides of its rectangle. -/
theorem placed_reaches {t : Trees} (hl : t.Linked)
    (hfull : ∀ m ∈ t.nodes, m.body.isBlock = true → m.body.children ≠ []) (hne : t ≠ nil)
    (w : Wiring) (c : Cell) : Reaches (t.placed w c) c (Span.joined w t.spans) := by
  induction t generalizing w c with
  | nil => exact absurd rfl hne
  | cons n kids rest ihk ihr =>
    obtain ⟨hch, hlk, hlr⟩ := hl
    -- the first tree reaches the sides of its own tile
    have hhead : Reaches (n.placeAt c :: kids.placed n.body.wiring c) c
        (Span.ofNode n.body kids.spans) := by
      cases hb : n.body.isBlock
      · rw [Span.ofNode_of_isBlock_eq_false hb kids.spans]
        exact Reaches.leaf hb c _
      · have hkids : kids ≠ nil := by
          intro hk
          apply hfull n (by simp) hb
          rw [hch, hk]
          rfl
        obtain ⟨cw, ids, hw⟩ := NodeBody.exists_of_isBlock hb
        have hk := ihk hlk (fun m hm hmb => hfull m (by simp [hm]) hmb) hkids n.body.wiring c
        rw [hw, Span.ofNode_block cw ids (by simpa [spans_eq_nil_iff] using hkids)]
        simp only [hw, NodeBody.wiring] at hk
        exact hk.mono fun m hm => List.mem_cons_of_mem _ hm
    rw [placed_cons, ← List.cons_append, spans_cons, Span.joined_cons]
    by_cases hr : rest = nil
    · subst hr
      simpa using hhead
    · exact hhead.adjoin w (ihr hlr (fun m hm hmb => hfull m (by simp [hm]) hmb) hr w _)

end Trees

/-- Leaves inside a rectangle that reach its first cell, last row and last column have the
rectangle as their bounding box. -/
theorem cellBounds_of_reaches {ns : List Node} {c : Cell} {s : Span}
    (hcov : ∀ m ∈ ns, m.body.isBlock = false → s.Covers c m.cell) (hreach : Reaches ns c s) :
    cellBounds ns = (c.row, c.col, c.row + s.rows - 1, c.col + s.cols - 1) := by
  have hleaf : ∀ {m}, m ∈ ns.filter (fun n => !n.body.isBlock) ↔ m ∈ ns ∧ m.body.isBlock = false := by
    intro m
    simp
  obtain ⟨m₀, hm₀, hb₀, hc₀⟩ := hreach.corner
  obtain ⟨mr, hmr, hbr, hrr⟩ := hreach.lastRow
  obtain ⟨mc, hmc, hbc, hcc⟩ := hreach.lastCol
  have hne : (ns.filter fun n => !n.body.isBlock).isEmpty = false :=
    List.isEmpty_eq_false_iff.mpr (List.ne_nil_of_mem (hleaf.mpr ⟨hm₀, hb₀⟩))
  have hcov' : ∀ m ∈ ns.filter (fun n => !n.body.isBlock), s.Covers c m.cell := fun m hm =>
    hcov m (hleaf.mp hm).1 (hleaf.mp hm).2
  simp only [cellBounds, hne, Bool.false_eq_true, if_false]
  rw [minOr_map_eq 0 ⟨m₀, hleaf.mpr ⟨hm₀, hb₀⟩, by rw [hc₀]⟩ fun m hm => (hcov' m hm).1,
    minOr_map_eq 0 ⟨m₀, hleaf.mpr ⟨hm₀, hb₀⟩, by rw [hc₀]⟩ fun m hm => (hcov' m hm).2.2.1,
    maxOr_map_eq 0 ⟨mr, hleaf.mpr ⟨hmr, hbr⟩, hrr⟩ fun m hm => by have := (hcov' m hm).2.1; omega,
    maxOr_map_eq 0 ⟨mc, hleaf.mpr ⟨hmc, hbc⟩, hcc⟩ fun m hm => by have := (hcov' m hm).2.2.2; omega]

end RelayLadder
