import RelayLadder.Proofs.Placement
import RelayLadder.Rung.Network

/-! # The shape of a built network

The builder gives every network one shape: a logic tree, when the step has one, laid out from
the top-left cell, and then the taps, the i-th in row i of the column just right of the tree.
When the tree is a well-formed branch and the ids of the tree and of the taps are distinct, the
network is well formed; its walk is the laid-out tree, its top-level nodes are the root and then
the taps, and each node below the root is named as a child exactly once.
-/

namespace RelayLadder

/-! ## Branches moved to their cells -/

namespace Branch

/-- A branch with each node moved to the cell that layout gives it from a cell. -/
def place : Branch → Cell → Branch
  | leaf n, c => leaf (n.placeAt c)
  | join n w f s, c => join (n.placeAt c) w (f.place c) (s.place (w.next c f.span))

theorem nodes_place (b : Branch) (c : Cell) : (b.place c).nodes = b.placed c := by
  induction b generalizing c with
  | leaf n => rfl
  | join n w f s ihf ihs => simp [place, placed, ihf, ihs]

theorem root_place (b : Branch) (c : Cell) : (b.place c).root = b.root.placeAt c := by
  cases b <;> rfl

theorem span_place (b : Branch) (c : Cell) : (b.place c).span = b.span := by
  induction b generalizing c with
  | leaf n => rfl
  | join n w f s ihf ihs => cases w <;> simp [place, span, ihf, ihs]

/-- Laying out a placed branch again puts every node where layout from the new cell puts it. -/
theorem placed_place (b : Branch) (c c' : Cell) : (b.place c).placed c' = b.placed c' := by
  induction b generalizing c c' with
  | leaf n => rfl
  | join n w f s ihf ihs => simp [place, placed, ihf, ihs, span_place, Node.placeAt]

theorem wf_place {b : Branch} (hwf : b.WF) (c : Cell) : (b.place c).WF := by
  induction b generalizing c with
  | leaf n => exact hwf
  | join n w f s ihf ihs =>
      obtain ⟨hw, hf, hs⟩ := hwf
      exact ⟨by simpa [root_place, Node.placeAt] using hw, ihf hf c, ihs hs _⟩

/-- In a well-formed branch, the children that its blocks name are the nodes below the root,
each once. -/
theorem children_perm {b : Branch} (hwf : b.WF) :
    (b.nodes.flatMap (·.body.children)).Perm (b.nodes.tail.map (·.id)) := by
  induction b with
  | leaf n => simp [children_of_isCondition hwf]
  | join n w f s ihf ihs =>
      obtain ⟨hw, hf, hs⟩ := hwf
      have hpf := ihf hf
      have hps := ihs hs
      have hf' : f.nodes.map (·.id) = f.root.id :: f.nodes.tail.map (·.id) := by
        obtain ⟨rf, hrf⟩ := f.nodes_eq_root_cons
        simp [hrf]
      have hs' : s.nodes.map (·.id) = s.root.id :: s.nodes.tail.map (·.id) := by
        obtain ⟨rs, hrs⟩ := s.nodes_eq_root_cons
        simp [hrs]
      simp only [nodes_join, List.tail_cons, List.flatMap_cons, List.flatMap_append, hw,
        NodeBody.children, List.map_append, hf', hs', List.cons_append, List.nil_append]
      -- the second root moves past the first branch's children
      exact (List.perm_middle.symm.trans (hpf.append (hps.cons _))).cons _

theorem placed_eq_cons (b : Branch) (c : Cell) : ∃ rest, b.placed c = b.root.placeAt c :: rest := by
  cases b <;> exact ⟨_, rfl⟩

/-- Every block of a well-formed branch joins two nodes of the branch. -/
theorem block_children {b : Branch} (hwf : b.WF) {m : Node} (hm : m ∈ b.nodes)
    (hb : m.body.isBlock = true) :
    ∃ w x y, m.body = .block w [x.id, y.id] ∧ x ∈ b.nodes ∧ y ∈ b.nodes := by
  induction b with
  | leaf n =>
      obtain rfl : m = n := by simpa using hm
      cases h : m.body <;> simp_all [NodeBody.isBlock, NodeBody.isCondition]
  | join n w f s ihf ihs =>
      obtain ⟨hw, hf, hs⟩ := hwf
      simp only [nodes_join, List.mem_cons, List.mem_append] at hm ⊢
      rcases hm with rfl | hm | hm
      · exact ⟨w, f.root, s.root, hw, .inr (.inl f.root_mem_nodes), .inr (.inr s.root_mem_nodes)⟩
      · obtain ⟨w', x, y, he, hx, hy⟩ := ihf hf hm
        exact ⟨w', x, y, he, .inr (.inl hx), .inr (.inl hy)⟩
      · obtain ⟨w', x, y, he, hx, hy⟩ := ihs hs hm
        exact ⟨w', x, y, he, .inr (.inr hx), .inr (.inr hy)⟩

/-- The nodes of a well-formed branch that are not blocks are conditions. -/
theorem isCondition_of_not_isBlock {b : Branch} (hwf : b.WF) {m : Node} (hm : m ∈ b.nodes)
    (hb : m.body.isBlock = false) : m.body.isCondition = true := by
  induction b with
  | leaf n =>
      obtain rfl : m = n := by simpa using hm
      exact hwf
  | join n w f s ihf ihs =>
      obtain ⟨hw, hf, hs⟩ := hwf
      simp only [nodes_join, List.mem_cons, List.mem_append] at hm
      rcases hm with rfl | hm | hm
      · simp [hw, NodeBody.isBlock] at hb
      · exact ihf hf hm
      · exact ihs hs hm

end Branch

theorem NodeBody.children_of_isTap {b : NodeBody} (h : b.isTap = true) : b.children = [] := by
  cases b <;> simp_all [NodeBody.isTap, NodeBody.children]

theorem NodeBody.isBlock_of_isTap {b : NodeBody} (h : b.isTap = true) : b.isBlock = false := by
  cases b <;> simp_all [NodeBody.isTap, NodeBody.isBlock]

/-! ## Ids that repeat -/

theorem firstRepeat_foldl_some (l : List String) (seen : List String) (r : String) :
    (l.foldl (fun (acc : List String × Option String) i =>
      match acc.2 with
      | some r => (acc.1, some r)
      | none => if acc.1.contains i then (acc.1, some i) else (i :: acc.1, none))
      (seen, some r)).2 = some r := by
  induction l with
  | nil => rfl
  | cons i l ih => exact ih

theorem firstRepeat_foldl_none (l : List String) {seen : List String} (hs : seen.Nodup) :
    (l.foldl (fun (acc : List String × Option String) i =>
      match acc.2 with
      | some r => (acc.1, some r)
      | none => if acc.1.contains i then (acc.1, some i) else (i :: acc.1, none))
      (seen, none)).2 = none ↔ (l ++ seen).Nodup := by
  induction l generalizing seen with
  | nil => simpa using hs
  | cons i l ih =>
      simp only [List.foldl_cons]
      by_cases hi : i ∈ seen
      · have hin : seen.contains i = true := List.contains_iff_mem.mpr hi
        simp only [hin, if_true, firstRepeat_foldl_some, reduceCtorEq, false_iff]
        intro hnd
        exact (List.nodup_cons.mp hnd).1 (List.mem_append_right _ hi)
      · have hin : seen.contains i = false := by simpa using hi
        simp only [hin, Bool.false_eq_true, if_false]
        rw [ih (List.nodup_cons.mpr ⟨hi, hs⟩), List.cons_append, List.nodup_middle]

/-- The first repeated id is none exactly when the ids are distinct. -/
theorem firstRepeat_eq_none_iff (ids : List String) : firstRepeat ids = none ↔ ids.Nodup := by
  have h := firstRepeat_foldl_none ids List.nodup_nil
  rw [List.append_nil] at h
  exact h

/-! ## Shapes -/

/-- A network as the builder makes it: a logic tree, when there is one, and the taps, each a
tap, with the ids of the tree and the taps distinct. -/
structure Shape where
  tree : Option Branch
  taps : List Node
  tree_wf : ∀ b ∈ tree, b.WF
  taps_isTap : ∀ t ∈ taps, t.body.isTap = true
  ids_nodup : ((tree.elim [] Branch.nodes ++ taps).map (·.id)).Nodup

namespace Shape

variable (s : Shape)

/-- The nodes of the logic tree. -/
def logic : List Node := s.tree.elim [] Branch.nodes

/-- How many columns the logic tree spans; none without a tree. -/
def width : Nat := s.tree.elim 0 fun b => b.span.cols

/-- How many rows the logic tree spans; none without a tree. -/
def height : Nat := s.tree.elim 0 fun b => b.span.rows

/-- The logic tree laid out from the top-left cell. -/
def placedTree : List Node := s.tree.elim [] fun b => b.placed {}

/-- The taps, the i-th in row i of the column just right of the tree. -/
def placedTaps : List Node := s.taps.zipIdx.map fun (t, i) => t.placeAt ⟨i, s.width⟩

/-- The network of a step with this shape. -/
def network (step : Int) (comment : Option String) : Network :=
  { id := "network_" ++ toString step, step, nodes := s.placedTree ++ s.placedTaps,
    rootId := s.tree.map (·.root.id), comment }

theorem ids_placedTaps : s.placedTaps.map (·.id) = s.taps.map (·.id) := by
  conv => rhs; rw [← List.zipIdx_map_fst 0 s.taps]
  simp only [placedTaps, List.map_map]
  rfl

theorem bodies_placedTaps : s.placedTaps.map (·.body) = s.taps.map (·.body) := by
  conv => rhs; rw [← List.zipIdx_map_fst 0 s.taps]
  simp only [placedTaps, List.map_map]
  rfl

theorem cells_placedTaps :
    s.placedTaps.map (·.cell) = (List.range' 0 s.taps.length).map fun i => ⟨i, s.width⟩ := by
  rw [← List.zipIdx_map_snd 0 s.taps]
  simp only [placedTaps, List.map_map]
  rfl

theorem isTap_of_mem_placedTaps {m : Node} (hm : m ∈ s.placedTaps) : m.body.isTap = true := by
  obtain ⟨⟨t, i⟩, hti, rfl⟩ := List.mem_map.mp hm
  exact s.taps_isTap t (List.fst_mem_of_mem_zipIdx hti)

theorem ids_placedTree : s.placedTree.map (·.id) = s.logic.map (·.id) := by
  cases h : s.tree <;> simp [placedTree, logic, h, Branch.ids_placed]

theorem bodies_placedTree : s.placedTree.map (·.body) = s.logic.map (·.body) := by
  cases h : s.tree <;> simp [placedTree, logic, h, Branch.bodies_placed]

variable (step : Int) (comment : Option String)

theorem ids_network : (s.network step comment).ids = (s.logic ++ s.taps).map (·.id) := by
  simp [network, Network.ids, ids_placedTree, ids_placedTaps]

/-- A network laid out from a shape holds the bodies of the shape's nodes. -/
theorem bodies_network : (s.network step comment).nodes.map (·.body) = (s.logic ++ s.taps).map (·.body) := by
  simp [network, bodies_placedTree, bodies_placedTaps]

theorem ids_network_nodup : (s.network step comment).ids.Nodup := by
  rw [ids_network]
  exact s.ids_nodup

theorem logic_ids_nodup : (s.logic.map (·.id)).Nodup := by
  have h := s.ids_nodup
  rw [List.map_append] at h
  exact List.Nodup.sublist (List.sublist_append_left _ _) h

theorem placedTap_id_not_mem_logic {m : Node} (hm : m ∈ s.placedTaps) :
    m.id ∉ s.logic.map (·.id) := by
  have hmt : m.id ∈ s.taps.map (·.id) := s.ids_placedTaps ▸ List.mem_map_of_mem hm
  have h := s.ids_nodup
  rw [List.map_append, List.nodup_append] at h
  exact fun hl => h.2.2 _ hl _ hmt rfl

theorem logic_of_tree {b : Branch} (h : s.tree = some b) : s.logic = b.nodes := by
  simp [logic, h]

theorem mem_network {m : Node} :
    m ∈ (s.network step comment).nodes ↔ m ∈ s.placedTree ∨ m ∈ s.placedTaps := by
  simp [network]

theorem root?_network :
    (s.network step comment).root? = s.tree.map fun b => b.root.placeAt {} := by
  cases h : s.tree with
  | none => simp [network, Network.root?, h]
  | some b =>
      obtain ⟨rest, hrest⟩ := b.placed_eq_cons {}
      simp [network, Network.root?, Network.find?, h, placedTree, hrest, Node.placeAt]

theorem preorder_network {r : Node} (hr : (s.network step comment).root? = some r) :
    preorder (s.network step comment).nodes r = .ok s.placedTree := by
  rw [root?_network] at hr
  obtain ⟨b, h, rfl⟩ := Option.map_eq_some_iff.mp hr
  have hwf : b.WF := s.tree_wf b h
  have hb : (b.nodes.map (·.id)).Nodup := by simpa [logic, h] using s.logic_ids_nodup
  have hpre : preorder (s.network step comment).nodes (b.place {}).root = .ok (b.place {}).nodes :=
    preorder_root (Branch.wf_place hwf {}) (s.ids_network_nodup step comment)
      (by rw [Branch.nodes_place, Branch.ids_placed]; exact hb)
      (fun m hm => (s.mem_network step comment).mpr (.inl (by
        simpa [placedTree, h, Branch.nodes_place] using hm)))
  rw [Branch.root_place, Branch.nodes_place] at hpre
  simpa [placedTree, h] using hpre

theorem walk_network : (s.network step comment).walk = s.placedTree := by
  unfold Network.walk
  cases hr : (s.network step comment).root? with
  | none =>
      have : s.tree = none := by simpa [root?_network] using hr
      simp [placedTree, this]
  | some r => simp [Network.walkFrom, s.preorder_network step comment hr]

/-- The children that the blocks of the network name are the nodes of the tree below its
root, each once. -/
theorem childIds_network_perm :
    (s.network step comment).childIds.Perm (s.logic.tail.map (·.id)) := by
  have htaps : s.placedTaps.flatMap (·.body.children) = [] := by
    simp only [List.flatMap_eq_nil_iff]
    exact fun m hm => NodeBody.children_of_isTap (s.isTap_of_mem_placedTaps hm)
  cases h : s.tree with
  | none => simp [Network.childIds, network, h, placedTree, logic, htaps]
  | some b =>
      have hp := Branch.children_perm (Branch.wf_place (s.tree_wf b h) {})
      rw [Branch.nodes_place, List.map_tail, Branch.ids_placed, ← List.map_tail] at hp
      simpa [Network.childIds, network, h, placedTree, logic, htaps] using hp

theorem mem_childIds_network {i : String} :
    i ∈ (s.network step comment).childIds ↔ i ∈ (s.logic.map (·.id)).tail := by
  rw [← List.map_tail]
  exact (s.childIds_network_perm step comment).mem_iff

/-- The top-level nodes are the root, when there is one, and then the taps. -/
theorem topLevel_network :
    (s.network step comment).topLevel =
      (s.tree.map fun b => b.root.placeAt {}).toList ++ s.placedTaps := by
  have htaps : s.placedTaps.filter (fun n => !(s.network step comment).childIds.contains n.id) =
      s.placedTaps := by
    refine List.filter_eq_self.mpr fun m hm => ?_
    have : m.id ∉ (s.logic.map (·.id)).tail := fun ht =>
      s.placedTap_id_not_mem_logic hm (List.mem_of_mem_tail ht)
    simp [mem_childIds_network, this]
  unfold Network.topLevel
  rw [show (s.network step comment).nodes = s.placedTree ++ s.placedTaps from rfl,
    List.filter_append, htaps]
  cases h : s.tree with
  | none => simp [placedTree, h]
  | some b =>
      obtain ⟨rest, hrest⟩ := b.placed_eq_cons {}
      have hids : (b.placed {}).map (·.id) = b.nodes.map (·.id) := b.ids_placed {}
      obtain ⟨tail, htail⟩ := b.nodes_eq_root_cons
      rw [hrest, htail] at hids
      simp only [List.map_cons, List.cons.injEq, Node.placeAt] at hids
      have hnd := s.logic_ids_nodup
      rw [s.logic_of_tree h, htail, List.map_cons, List.nodup_cons] at hnd
      have hroot : b.root.id ∉ (s.logic.map (·.id)).tail := by
        rw [s.logic_of_tree h, htail, List.map_cons, List.tail_cons]
        exact hnd.1
      have hbelow : ∀ m ∈ rest, m.id ∈ (s.logic.map (·.id)).tail := fun m hm => by
        rw [s.logic_of_tree h, htail, List.map_cons, List.tail_cons, ← hids.2]
        exact List.mem_map_of_mem hm
      simpa [placedTree, h, hrest, mem_childIds_network, Node.placeAt, hroot] using hbelow

/-- The taps of the network are the placed taps, in order. -/
theorem taps_network : (s.network step comment).taps = s.placedTaps := by
  have hroot : ((s.tree.map fun b => b.root.placeAt {}).toList).filter
      (fun n => some n.id != (s.network step comment).rootId && n.body.isTap) = [] := by
    cases h : s.tree <;> simp [network, h, Node.placeAt]
  have htaps : s.placedTaps.filter
      (fun n => some n.id != (s.network step comment).rootId && n.body.isTap) = s.placedTaps := by
    refine List.filter_eq_self.mpr fun m hm => ?_
    have hne : some m.id ≠ (s.network step comment).rootId := by
      cases h : s.tree with
      | none => simp [network, h]
      | some b =>
          have : b.root.id ∈ s.logic.map (·.id) := by
            rw [s.logic_of_tree h]
            exact List.mem_map_of_mem b.root_mem_nodes
          simp only [network, h, Option.map_some, ne_eq, Option.some.injEq]
          exact fun he => s.placedTap_id_not_mem_logic hm (he ▸ this)
    simp [hne, s.isTap_of_mem_placedTaps hm]
  unfold Network.taps
  rw [topLevel_network, List.filter_append, hroot, htaps, List.nil_append]

/-- The nodes that are not blocks are the leaves of the laid-out tree and then the taps. -/
theorem leafNodes_network :
    (s.network step comment).leafNodes = s.tree.elim [] (fun b => b.placedLeaves {}) ++
      s.placedTaps := by
  have htaps : s.placedTaps.filter (fun n => !n.body.isBlock) = s.placedTaps :=
    List.filter_eq_self.mpr fun m hm => by
      simp [NodeBody.isBlock_of_isTap (s.isTap_of_mem_placedTaps hm)]
  unfold Network.leafNodes
  rw [show (s.network step comment).nodes = s.placedTree ++ s.placedTaps from rfl,
    List.filter_append, htaps]
  cases h : s.tree with
  | none => simp [placedTree, h]
  | some b => simp [placedTree, h, Branch.filter_placed (s.tree_wf b h)]

theorem child_mem_ids {m : Node} (hm : m ∈ (s.network step comment).nodes) {c : String}
    (hc : c ∈ m.body.children) : c ∈ (s.network step comment).ids := by
  have hci : c ∈ (s.network step comment).childIds := List.mem_flatMap.mpr ⟨m, hm, hc⟩
  rw [mem_childIds_network] at hci
  rw [ids_network, List.map_append]
  exact List.mem_append_left _ (List.mem_of_mem_tail hci)

/-- The network is well formed: its ids are distinct, its root is one of its nodes and every
child is one of its nodes. -/
theorem problem?_network : (s.network step comment).problem? = none := by
  have hchildren : Network.problem?.unknownChild (s.network step comment) = none := by
    simp only [Network.problem?.unknownChild, List.findSome?_eq_none_iff, Option.map_eq_none_iff,
      List.find?_eq_none, Bool.not_eq_true']
    intro m hm c hc
    simpa using s.child_mem_ids step comment hm hc
  unfold Network.problem?
  rw [(firstRepeat_eq_none_iff _).mpr (s.ids_network_nodup step comment)]
  cases h : s.tree with
  | none => simpa [network, h] using hchildren
  | some b =>
      have hr : (s.network step comment).rootId = some b.root.id := by simp [network, h]
      have hmem : (s.network step comment).ids.contains b.root.id = true := by
        rw [List.contains_iff_mem, ids_network, List.map_append, s.logic_of_tree h]
        exact List.mem_append_left _ (List.mem_map_of_mem b.root_mem_nodes)
      simp only [hr, hmem, if_true]
      exact hchildren

/-- The nodes are the walk of the tree and then the taps. -/
theorem nodes_network_eq :
    (s.network step comment).nodes =
      (s.network step comment).walk ++ (s.network step comment).taps := by
  rw [walk_network, taps_network]
  rfl

theorem topLevel_network_eq :
    (s.network step comment).topLevel =
      (s.network step comment).root?.toList ++ (s.network step comment).taps := by
  rw [topLevel_network, root?_network, taps_network]

theorem mem_walk_network {m : Node} (hm : m ∈ (s.network step comment).walk) :
    ∃ b, s.tree = some b ∧ m ∈ (b.place {}).nodes := by
  rw [walk_network] at hm
  cases h : s.tree with
  | none => simp [placedTree, h] at hm
  | some b => exact ⟨b, rfl, by simpa [placedTree, h, Branch.nodes_place] using hm⟩

/-- Laying the network out again from its root succeeds and gives back its walk, cells
included, and the span of its tree. -/
theorem layout_network {r : Node} (hr : (s.network step comment).root? = some r) :
    layout (s.network step comment).nodes r = .ok ((s.network step comment).walk, ⟨s.height, s.width⟩) := by
  have hr' := hr
  rw [root?_network] at hr'
  obtain ⟨b, h, rfl⟩ := Option.map_eq_some_iff.mp hr'
  have hb : (b.nodes.map (·.id)).Nodup := by simpa [logic, h] using s.logic_ids_nodup
  have hlay := layout_branch (Branch.wf_place (s.tree_wf b h) {}) (s.ids_network_nodup step comment)
    (by rw [Branch.nodes_place, Branch.ids_placed]; exact hb)
    (fun m hm => (s.mem_network step comment).mpr (.inl (by
      simpa [placedTree, h, Branch.nodes_place] using hm))) {}
  rw [Branch.root_place, Branch.placed_place, Branch.span_place] at hlay
  simp [hlay, walk_network, placedTree, height, width, h]

/-- Every block of the network joins two of its nodes, and both resolve. -/
theorem children_network {m : Node} (hm : m ∈ (s.network step comment).nodes)
    (hb : m.body.isBlock = true) :
    ∃ w x y, m.body = .block w [x.id, y.id] ∧ (s.network step comment).children m = [x, y] := by
  have hwalk : m ∈ (s.network step comment).walk := by
    rcases (s.mem_network step comment).mp hm with ht | ht
    · rwa [walk_network]
    · simp [NodeBody.isBlock_of_isTap (s.isTap_of_mem_placedTaps ht)] at hb
  obtain ⟨b, h, hmb⟩ := s.mem_walk_network step comment hwalk
  obtain ⟨w, x, y, he, hx, hy⟩ := Branch.block_children (Branch.wf_place (s.tree_wf b h) {}) hmb hb
  have hin : ∀ z ∈ (b.place {}).nodes, z ∈ (s.network step comment).nodes := fun z hz =>
    (s.mem_network step comment).mpr (.inl (by simpa [placedTree, h, Branch.nodes_place] using hz))
  have hnd := s.ids_network_nodup step comment
  refine ⟨w, x, y, he, ?_⟩
  simp [Network.children, he, NodeBody.children, lookupNode_of_mem hnd (hin x hx),
    lookupNode_of_mem hnd (hin y hy)]

/-- The nodes of the walk that are not blocks are conditions. -/
theorem isCondition_of_mem_walk {m : Node} (hm : m ∈ (s.network step comment).walk)
    (hb : m.body.isBlock = false) : m.body.isCondition = true := by
  obtain ⟨b, h, hmb⟩ := s.mem_walk_network step comment hm
  exact Branch.isCondition_of_not_isBlock (Branch.wf_place (s.tree_wf b h) {}) hmb hb

/-- Each node of the walk below the root is named as a child exactly once. -/
theorem count_childIds_network {m : Node} (hm : m ∈ (s.network step comment).walk.tail) :
    (s.network step comment).childIds.count m.id = 1 := by
  rw [(s.childIds_network_perm step comment).count_eq, List.map_tail]
  have hids : (s.network step comment).walk.map (·.id) = s.logic.map (·.id) := by
    rw [walk_network, ids_placedTree]
  apply List.count_eq_one_of_mem (List.Nodup.sublist (List.tail_sublist _) s.logic_ids_nodup)
  rw [← hids, ← List.map_tail]
  exact List.mem_map_of_mem hm

end Shape

end RelayLadder
