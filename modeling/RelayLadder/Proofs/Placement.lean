import RelayLadder.Proofs.Branch
import RelayLadder.Rung.Layout

/-! # Laying out a branch

On a well-formed branch whose ids are distinct, layout is the plain recursion: a branch spans
one cell when it is a leaf, and a block puts its second branch beside its first (series) or
under it (parallel). The table of spans computed from the end of the pre-order list holds
each sub-branch's span, and the forward pass sends each block's cell on to its branches.
-/

namespace RelayLadder

/-- Where the second branch of a block of wiring `w` at cell `c` starts, when its first
branch spans `s`. -/
def Wiring.next (w : Wiring) (c : Cell) (s : Span) : Cell :=
  match w with
  | .series => { c with col := c.col + s.cols }
  | .parallel => { c with row := c.row + s.rows }

namespace Branch

/-- The sub-branches of a branch in pre-order, itself first. -/
def subs : Branch → List Branch
  | leaf n => [leaf n]
  | join n w f s => join n w f s :: (f.subs ++ s.subs)

/-- The span of a branch: one cell for a leaf; side by side for a series block, as tall as
its taller branch; stacked for a parallel block, as wide as its wider branch. -/
def span : Branch → Span
  | leaf _ => ⟨1, 1⟩
  | join _ .series f s => ⟨max f.span.rows s.span.rows, f.span.cols + s.span.cols⟩
  | join _ .parallel f s => ⟨f.span.rows + s.span.rows, max f.span.cols s.span.cols⟩

/-- The nodes of a branch laid out from a cell, in pre-order. -/
def placed : Branch → Cell → List Node
  | leaf n, c => [n.placeAt c]
  | join n w f s, c => n.placeAt c :: (f.placed c ++ s.placed (w.next c f.span))

theorem mem_subs_self (b : Branch) : b ∈ b.subs := by
  cases b <;> simp [subs]

theorem nodes_eq_map_subs (b : Branch) : b.nodes = b.subs.map root := by
  induction b with
  | leaf n => rfl
  | join n w f s ihf ihs => simp [subs, ihf, ihs]

theorem span_pos (b : Branch) : 0 < b.span.rows ∧ 0 < b.span.cols := by
  induction b with
  | leaf n => simp [span]
  | join n w f s ihf ihs => cases w <;> simp only [span] <;> omega

end Branch

/-! ## The table of spans -/

theorem lookup_spansOf_append {L R : List Node} {i : String} (hi : i ∉ L.map (·.id)) :
    (spansOf (L ++ R)).lookup i = (spansOf R).lookup i := by
  induction L with
  | nil => rfl
  | cons l L ih =>
      simp only [List.map_cons, List.mem_cons, not_or] at hi
      have hne : (i == l.id) = false := by simpa using hi.1
      simp only [List.cons_append, spansOf, List.foldr_cons, List.lookup_cons, hne] at ih ⊢
      exact ih hi.2

theorem spanIn_spansOf_cons (n : Node) (R : List Node) :
    spanIn (spansOf (n :: R)) n.id = nodeSpan (spansOf R) n := by
  simp [spanIn, spansOf]

theorem spanIn_spansOf_cons_of_ne {n : Node} (R : List Node) {i : String} (hi : i ≠ n.id) :
    spanIn (spansOf (n :: R)) i = spanIn (spansOf R) i := by
  have hne : (i == n.id) = false := by simpa using hi
  simp [spanIn, spansOf, List.lookup_cons, hne]

theorem Span.join_pair (w : Wiring) {a b : Span} (ha : 0 < a.rows ∧ 0 < a.cols)
    (hb : 0 < b.rows ∧ 0 < b.cols) :
    Span.join w [a, b] = match w with
      | .series => ⟨max a.rows b.rows, a.cols + b.cols⟩
      | .parallel => ⟨a.rows + b.rows, max a.cols b.cols⟩ := by
  cases w <;> simp only [Span.join, List.map_cons, List.map_nil, List.foldl_cons, List.foldl_nil,
    List.foldr_cons, List.foldr_nil, Span.mk.injEq] <;> omega

/-- In the table of spans of a pre-order list that starts with a well-formed branch without
repeated ids, every sub-branch has its span, whatever follows the branch. -/
theorem spanIn_spansOf_sub {t : Branch} (hwf : t.WF) (hnd : (t.nodes.map (·.id)).Nodup)
    (post : List Node) {x : Branch} (hx : x ∈ t.subs) :
    spanIn (spansOf (t.nodes ++ post)) x.root.id = x.span := by
  induction t generalizing post x with
  | leaf n =>
      obtain rfl : x = .leaf n := by simpa [Branch.subs] using hx
      have hblock : nodeSpan (spansOf post) n = .unit := by
        simp only [Branch.wf_leaf] at hwf
        cases hb : n.body <;> simp_all [nodeSpan, NodeBody.isCondition]
      simp only [Branch.nodes_leaf, List.singleton_append, Branch.root_leaf]
      rw [spanIn_spansOf_cons, hblock]
      rfl
  | join n w f s ihf ihs =>
      obtain ⟨hw, hf, hs⟩ := hwf
      simp only [Branch.nodes_join, List.map_cons, List.map_append, List.nodup_cons,
        List.nodup_append, List.mem_append, not_or] at hnd
      obtain ⟨⟨hnf, hns⟩, hndf, hnds, hdisj⟩ := hnd
      have hfs : spanIn (spansOf (f.nodes ++ (s.nodes ++ post))) f.root.id = f.span :=
        ihf hf hndf _ f.mem_subs_self
      have hss : spanIn (spansOf (f.nodes ++ (s.nodes ++ post))) s.root.id = s.span := by
        have hsf : s.root.id ∉ f.nodes.map (·.id) := fun h =>
          hdisj _ h _ (List.mem_map_of_mem s.root_mem_nodes) rfl
        simp only [spanIn, lookup_spansOf_append hsf]
        exact ihs hs hnds _ s.mem_subs_self
      simp only [Branch.subs, List.mem_cons, List.mem_append] at hx
      rw [Branch.nodes_join, List.cons_append, List.append_assoc]
      rcases hx with rfl | hx | hx
      · rw [Branch.root_join, spanIn_spansOf_cons]
        simp only [nodeSpan, hw, List.map_cons, List.map_nil, hfs, hss]
        rw [Span.join_pair w f.span_pos s.span_pos]
        cases w <;> rfl
      · have hxn : x.root.id ≠ n.id := fun h => hnf (h ▸ List.mem_map_of_mem
          ((Branch.nodes_eq_map_subs f) ▸ List.mem_map_of_mem hx))
        rw [spanIn_spansOf_cons_of_ne _ hxn]
        exact ihf hf hndf _ hx
      · have hxs : x.root ∈ s.nodes := (Branch.nodes_eq_map_subs s) ▸ List.mem_map_of_mem hx
        have hxn : x.root.id ≠ n.id := fun h => hns (h ▸ List.mem_map_of_mem hxs)
        have hxf : x.root.id ∉ f.nodes.map (·.id) := fun h =>
          hdisj _ h _ (List.mem_map_of_mem hxs) rfl
        rw [spanIn_spansOf_cons_of_ne _ hxn]
        simp only [spanIn, lookup_spansOf_append hxf]
        exact ihs hs hnds _ hx

/-! ## Placing -/

theorem Branch.ids_placed (b : Branch) (c : Cell) : (b.placed c).map (·.id) = b.nodes.map (·.id) := by
  induction b generalizing c with
  | leaf n => rfl
  | join n w f s ihf ihs => simp [Branch.placed, ihf, ihs, Node.placeAt]

theorem Branch.bodies_placed (b : Branch) (c : Cell) :
    (b.placed c).map (·.body) = b.nodes.map (·.body) := by
  induction b generalizing c with
  | leaf n => rfl
  | join n w f s ihf ihs => simp [Branch.placed, ihf, ihs, Node.placeAt]

/-- An id among ids that no placed node has is not the id of a placed node. -/
theorem id_not_mem_of_fresh {placed : List Node} {ids : List String}
    (hfresh : ∀ m ∈ placed, m.id ∉ ids) {i : String} (hi : i ∈ ids) : i ∉ placed.map (·.id) :=
  fun h => by
    obtain ⟨m, hm, he⟩ := List.mem_map.mp h
    exact hfresh m hm (he ▸ hi)

theorem putNode_fresh {ns : List Node} {n : Node} (h : n.id ∉ ns.map (·.id)) :
    putNode ns n = ns ++ [n] := by
  have : ns.any (·.id == n.id) = false := List.any_eq_false.mpr fun m hm he =>
    h (by rw [← beq_iff_eq.mp he]; exact List.mem_map_of_mem hm)
  simp [putNode, this]

theorem Placing.cellOf_cons_of_ne {sent : List (String × Cell)} {placed : List Node}
    {i j : String} (c : Cell) (h : i ≠ j) :
    Placing.cellOf ⟨(j, c) :: sent, placed⟩ i = Placing.cellOf ⟨sent, placed⟩ i := by
  have hne : (i == j) = false := by simpa using h
  simp [Placing.cellOf, List.lookup_cons, hne]

theorem sendChildren_pair (tbl : List (String × Span)) (w : Wiring) (c : Cell) (i j : String)
    (sent : List (String × Cell)) :
    Placing.sendChildren tbl w c [i, j] sent = (j, w.next c (spanIn tbl i)) :: (i, c) :: sent := by
  cases w <;> rfl

/-- Placing the pre-order list of a branch, from a state that sends the branch's root to `c`,
appends the branch laid out from `c` to the placed nodes; the cells sent on are for the
branch's nodes below its root. -/
theorem foldl_visit_branch {tbl : List (String × Span)} {t : Branch} (hwf : t.WF)
    (hnd : (t.nodes.map (·.id)).Nodup) (htbl : ∀ x ∈ t.subs, spanIn tbl x.root.id = x.span)
    (p : Placing) (c : Cell) (hc : p.cellOf t.root.id = c)
    (hfresh : ∀ m ∈ p.placed, m.id ∉ t.nodes.map (·.id)) :
    ∃ sent, t.nodes.foldl (Placing.visit tbl) p = ⟨sent, p.placed ++ t.placed c⟩ ∧
      ∀ i ∉ t.nodes.tail.map (·.id), sent.lookup i = p.sent.lookup i := by
  induction t generalizing p c with
  | leaf n =>
      have hn : n.id ∉ p.placed.map (·.id) := id_not_mem_of_fresh hfresh (by simp)
      refine ⟨p.sent, ?_, fun _ _ => rfl⟩
      simp only [Branch.wf_leaf] at hwf
      simp only [Branch.nodes_leaf, List.foldl_cons, List.foldl_nil, Branch.placed]
      rw [Branch.root_leaf] at hc
      cases hb : n.body <;> simp_all [Placing.visit, NodeBody.isCondition, putNode_fresh,
        Node.placeAt]
  | join n w f s ihf ihs =>
      obtain ⟨hw, hf, hs⟩ := hwf
      have hnd' := hnd
      simp only [Branch.nodes_join, List.map_cons, List.map_append, List.nodup_cons,
        List.nodup_append, List.mem_append, not_or] at hnd'
      obtain ⟨⟨hnf, hns⟩, hndf, hnds, hdisj⟩ := hnd'
      have hsf : s.root.id ≠ f.root.id := fun h =>
        hdisj _ (List.mem_map_of_mem f.root_mem_nodes) _ (List.mem_map_of_mem s.root_mem_nodes) h.symm
      have hn : n.id ∉ p.placed.map (·.id) := id_not_mem_of_fresh hfresh (by simp)
      -- the block's own visit places it and sends its two branches their cells
      let p1 : Placing := ⟨(s.root.id, w.next c f.span) :: (f.root.id, c) :: p.sent,
        p.placed ++ [n.placeAt c]⟩
      have hv : Placing.visit tbl p n = p1 := by
        rw [Branch.root_join] at hc
        have hfspan := htbl f (by simp [Branch.subs, f.mem_subs_self])
        have hput : putNode p.placed (n.placeAt c) = p.placed ++ [n.placeAt c] := putNode_fresh hn
        simp only [Placing.visit, hc, hput, hw, sendChildren_pair, hfspan, p1]
      have hf1 : p1.cellOf f.root.id = c := by
        rw [Placing.cellOf_cons_of_ne _ hsf.symm]
        simp [Placing.cellOf]
      have hfresh1 : ∀ m ∈ p1.placed, m.id ∉ f.nodes.map (·.id) := by
        intro m hm hmf
        rcases List.mem_append.mp hm with hm | hm
        · exact hfresh m hm (by simp [hmf])
        · obtain rfl : m = n.placeAt c := by simpa using hm
          exact hnf hmf
      obtain ⟨sent2, hfold2, hagree2⟩ := ihf hf hndf
        (fun x hx => htbl x (by simp [Branch.subs, hx])) p1 c hf1 hfresh1
      have hs2 : Placing.cellOf ⟨sent2, p1.placed ++ f.placed c⟩ s.root.id = w.next c f.span := by
        have hst : s.root.id ∉ f.nodes.tail.map (·.id) := fun h =>
          hdisj _ (List.mem_of_mem_tail (List.map_tail ▸ h)) _
            (List.mem_map_of_mem s.root_mem_nodes) rfl
        simp [Placing.cellOf, hagree2 _ hst, p1]
      have hfresh2 : ∀ m ∈ p1.placed ++ f.placed c, m.id ∉ s.nodes.map (·.id) := by
        intro m hm hms
        rcases List.mem_append.mp hm with hm | hm
        · rcases List.mem_append.mp hm with hm | hm
          · exact hfresh m hm (by simp [hms])
          · obtain rfl : m = n.placeAt c := by simpa using hm
            exact hns hms
        · have hmf : m.id ∈ f.nodes.map (·.id) := f.ids_placed c ▸ List.mem_map_of_mem hm
          exact hdisj _ hmf _ hms rfl
      obtain ⟨sent3, hfold3, hagree3⟩ := ihs hs hnds
        (fun x hx => htbl x (by simp [Branch.subs, hx])) _ _ hs2 hfresh2
      refine ⟨sent3, ?_, ?_⟩
      · rw [Branch.nodes_join, List.foldl_cons, hv, List.foldl_append, hfold2, hfold3]
        simp [Branch.placed, p1]
      · intro i hi
        simp only [Branch.nodes_join, List.tail_cons, List.map_append, List.mem_append,
          not_or] at hi
        rw [hagree3 i fun h => hi.2 (List.mem_of_mem_tail (List.map_tail ▸ h)),
          hagree2 i fun h => hi.1 (List.mem_of_mem_tail (List.map_tail ▸ h))]
        have his : i ≠ s.root.id := fun h => hi.2 (h ▸ List.mem_map_of_mem s.root_mem_nodes)
        have hif : i ≠ f.root.id := fun h => hi.1 (h ▸ List.mem_map_of_mem f.root_mem_nodes)
        simp [p1, List.lookup_cons, beq_false_of_ne his, beq_false_of_ne hif]

/-- Layout of a well-formed branch without repeated ids, in an arena with distinct ids that
holds it, places the branch by `Branch.placed` and measures it by `Branch.span`. -/
theorem layout_branch {arena : List Node} {b : Branch} (hwf : b.WF)
    (hnd : (arena.map (·.id)).Nodup) (hb : (b.nodes.map (·.id)).Nodup)
    (hsub : ∀ m ∈ b.nodes, m ∈ arena) (start : Cell) :
    layout arena b.root start = .ok (b.placed start, b.span) := by
  have htbl : ∀ x ∈ b.subs, spanIn (spansOf b.nodes) x.root.id = x.span := fun x hx => by
    simpa using spanIn_spansOf_sub hwf hb [] hx
  obtain ⟨sent, hfold, -⟩ := foldl_visit_branch hwf hb htbl ⟨[(b.root.id, start)], []⟩ start
    (by simp [Placing.cellOf]) (by simp)
  simp [layout, preorder_root hwf hnd hb hsub, hfold, htbl b b.mem_subs_self, bind, Except.bind,
    pure, Except.pure]

/-! ## Where the leaves go -/

namespace Branch

/-- The leaves of a branch laid out from a cell, left to right and top to bottom. -/
def placedLeaves : Branch → Cell → List Node
  | leaf n, c => [n.placeAt c]
  | join _ w f s, c => f.placedLeaves c ++ s.placedLeaves (w.next c f.span)

theorem filter_placed {b : Branch} (hwf : b.WF) (c : Cell) :
    (b.placed c).filter (fun m => !m.body.isBlock) = b.placedLeaves c := by
  induction b generalizing c with
  | leaf n =>
      have : n.body.isBlock = false := by
        cases hb : n.body <;> simp_all [NodeBody.isCondition, NodeBody.isBlock]
      simp [placed, placedLeaves, Node.placeAt, this]
  | join n w f s ihf ihs =>
      obtain ⟨hw, hf, hs⟩ := hwf
      have : (n.placeAt c).body.isBlock = true := by simp [Node.placeAt, hw, NodeBody.isBlock]
      simp only [placed, placedLeaves, List.filter_cons, this, Bool.not_true, Bool.false_eq_true,
        if_false, List.filter_append, ihf hf, ihs hs]

/-- Every leaf lies in the rectangle that the branch spans from its cell. -/
theorem mem_placedLeaves_inside (b : Branch) {c : Cell} {m : Node} (hm : m ∈ b.placedLeaves c) :
    c.row ≤ m.cell.row ∧ m.cell.row < c.row + b.span.rows ∧
      c.col ≤ m.cell.col ∧ m.cell.col < c.col + b.span.cols := by
  induction b generalizing c with
  | leaf n =>
      obtain rfl : m = n.placeAt c := by simpa [placedLeaves] using hm
      simp only [span, Node.placeAt]
      omega
  | join n w f s ihf ihs =>
      rcases List.mem_append.mp hm with hm | hm
      · have := ihf hm
        cases w <;> simp only [span] <;> omega
      · have := ihs hm
        cases w <;> simp only [span, Wiring.next] at this ⊢ <;> omega

/-- No two leaves share a cell. -/
theorem placedLeaves_cells_nodup (b : Branch) (c : Cell) :
    ((b.placedLeaves c).map (·.cell)).Nodup := by
  induction b generalizing c with
  | leaf n => simp [placedLeaves]
  | join n w f s ihf ihs =>
      rw [placedLeaves, List.map_append, List.nodup_append]
      refine ⟨ihf c, ihs _, ?_⟩
      intro x hx y hy hxy
      obtain ⟨mf, hmf, rfl⟩ := List.mem_map.mp hx
      obtain ⟨ms, hms, rfl⟩ := List.mem_map.mp hy
      have hf := f.mem_placedLeaves_inside hmf
      have hs := s.mem_placedLeaves_inside hms
      have hrow := congrArg Cell.row hxy
      have hcol := congrArg Cell.col hxy
      cases w <;> simp only [Wiring.next] at hs <;> omega

/-- The first leaf sits at the branch's own cell. -/
theorem placedLeaves_corner (b : Branch) (c : Cell) : ∃ m ∈ b.placedLeaves c, m.cell = c := by
  induction b generalizing c with
  | leaf n => simp [placedLeaves, Node.placeAt]
  | join n w f s ihf ihs =>
      obtain ⟨m, hm, hmc⟩ := ihf c
      exact ⟨m, List.mem_append_left _ hm, hmc⟩

/-- Some leaf lies in the last row of the rectangle, and some leaf in its last column. -/
theorem placedLeaves_reach (b : Branch) (c : Cell) :
    (∃ m ∈ b.placedLeaves c, m.cell.row = c.row + b.span.rows - 1) ∧
      (∃ m ∈ b.placedLeaves c, m.cell.col = c.col + b.span.cols - 1) := by
  induction b generalizing c with
  | leaf n => simp [placedLeaves, span, Node.placeAt]
  | join n w f s ihf ihs =>
      obtain ⟨⟨mf, hmf, hfr⟩, ⟨mf', hmf', hfc⟩⟩ := ihf c
      obtain ⟨⟨ms, hms, hsr⟩, ⟨ms', hms', hsc⟩⟩ := ihs (w.next c f.span)
      have hf := f.span_pos
      have hs := s.span_pos
      have inl : ∀ m ∈ f.placedLeaves c, m ∈ (join n w f s).placedLeaves c := fun m hm =>
        List.mem_append_left _ hm
      have inr : ∀ m ∈ s.placedLeaves (w.next c f.span), m ∈ (join n w f s).placedLeaves c :=
        fun m hm => List.mem_append_right _ hm
      cases w with
      | series =>
          simp only [Wiring.next] at hsr hsc
          refine ⟨?_, ⟨ms', inr _ hms', by simp only [span]; omega⟩⟩
          by_cases hle : s.span.rows ≤ f.span.rows
          · exact ⟨mf, inl _ hmf, by simp only [span]; omega⟩
          · exact ⟨ms, inr _ hms, by simp only [span]; omega⟩
      | parallel =>
          simp only [Wiring.next] at hsr hsc
          refine ⟨⟨ms, inr _ hms, by simp only [span]; omega⟩, ?_⟩
          by_cases hle : s.span.cols ≤ f.span.cols
          · exact ⟨mf', inl _ hmf', by simp only [span]; omega⟩
          · exact ⟨ms', inr _ hms', by simp only [span]; omega⟩

end Branch

end RelayLadder
