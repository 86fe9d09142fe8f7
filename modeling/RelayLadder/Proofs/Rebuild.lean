import RelayLadder.Proofs.Binarise
import RelayLadder.Proofs.Placement
import RelayLadder.Proofs.Issue

/-! # Networks rebuilt from their lines

The lines of a network the builder made, read back and assembled again, rebuild the same
network up to the ids of its nodes. The assembler gives fresh ids, and none of the old ones
need survive: the ids of the rung, and of the branches its rows never joined, are gone. What is
kept is everything else. The logic tree comes back with the same shape, the same conditions and
the same comments (`Branch.grows_lines`, through `Grows`), so it is the old tree under a
renaming of ids (`Branch.exists_rename`). Each tap comes back with its fields, in order, and
layout puts every node in the same cell.
-/

namespace RelayLadder

/-! ## Renaming ids -/

/-- A body with the ids it names renamed: a block's children; other bodies name no node. -/
def NodeBody.rename (f : String → String) : NodeBody → NodeBody
  | .block w cs => .block w (cs.map f)
  | b => b

/-- A node with its id, and the ids its block names, renamed. -/
def Node.rename (f : String → String) (n : Node) : Node :=
  { n with id := f n.id, body := n.body.rename f }

/-- A network with the ids of its nodes renamed. -/
def Network.rename (f : String → String) (N : Network) : Network :=
  { N with nodes := N.nodes.map (Node.rename f), rootId := N.rootId.map f }

/-- A branch with the ids of its nodes renamed. -/
def Branch.rename (f : String → String) : Branch → Branch
  | .leaf n => .leaf (n.rename f)
  | .join n w x y => .join (n.rename f) w (x.rename f) (y.rename f)

/-- A body that names no node is kept by every renaming. -/
theorem NodeBody.rename_of_isBlock {b : NodeBody} (h : b.isBlock = false) (f : String → String) :
    b.rename f = b := by
  cases b <;> simp_all [NodeBody.rename, NodeBody.isBlock]

theorem Node.rename_congr {f g : String → String} {n : Node} (hid : f n.id = g n.id)
    (hc : ∀ c ∈ n.body.children, f c = g c) : n.rename f = n.rename g := by
  obtain ⟨id, comment, cell, body⟩ := n
  cases body <;> simp_all [Node.rename, NodeBody.rename, NodeBody.children]

@[simp] theorem Node.id_rename (f : String → String) (n : Node) : (n.rename f).id = f n.id := rfl

theorem Node.rename_placeAt (f : String → String) (n : Node) (c : Cell) :
    (n.placeAt c).rename f = (n.rename f).placeAt c := rfl

namespace Branch

@[simp] theorem rename_leaf (f : String → String) (n : Node) : (leaf n).rename f = leaf (n.rename f) := rfl
@[simp] theorem rename_join (f : String → String) (n : Node) (w : Wiring) (x y : Branch) :
    (join n w x y).rename f = join (n.rename f) w (x.rename f) (y.rename f) := rfl

theorem root_rename (f : String → String) (b : Branch) : (b.rename f).root = b.root.rename f := by
  cases b <;> rfl

theorem span_rename (f : String → String) (b : Branch) : (b.rename f).span = b.span := by
  induction b with
  | leaf n => rfl
  | join n w x y ihx ihy => cases w <;> simp [span, ihx, ihy]

/-- Layout does not read ids: a renamed branch is placed as the branch is, renamed. -/
theorem placed_rename (f : String → String) (b : Branch) (c : Cell) :
    (b.rename f).placed c = (b.placed c).map (Node.rename f) := by
  induction b generalizing c with
  | leaf n => rfl
  | join n w x y ihx ihy => simp [placed, ihx, ihy, span_rename, Node.rename_placeAt]

/-- Every id a block of a well-formed branch names is the id of a node of the branch. -/
theorem child_mem_ids {b : Branch} (hwf : b.WF) {m : Node} (hm : m ∈ b.nodes) {c : String}
    (hc : c ∈ m.body.children) : c ∈ b.nodes.map (·.id) := by
  obtain ⟨m', hm', he⟩ := List.mem_map.mp (child_mem_tail hwf hm hc)
  exact he ▸ List.mem_map_of_mem (List.mem_of_mem_tail hm')

/-- Renamings that agree on the ids of a well-formed branch rename it alike. -/
theorem rename_congr {f g : String → String} {b : Branch} (hwf : b.WF)
    (h : ∀ i ∈ b.nodes.map (·.id), f i = g i) : b.rename f = b.rename g := by
  have hnode : ∀ m ∈ b.nodes, m.rename f = m.rename g := fun m hm =>
    Node.rename_congr (h _ (List.mem_map_of_mem hm)) fun c hc => h c (child_mem_ids hwf hm hc)
  induction b with
  | leaf n => simpa using hnode n (by simp)
  | join n w x y ihx ihy =>
    obtain ⟨-, hx, hy⟩ := hwf
    rw [rename_join, rename_join, hnode n (by simp),
      ihx hx (fun i hi => h i (by simp_all)) (fun m hm => hnode m (by simp [hm])),
      ihy hy (fun i hi => h i (by simp_all)) (fun m hm => hnode m (by simp [hm]))]

/-- Two well-formed branches in the first cell that are equal up to ids, the first with
distinct ids, are related by a renaming of ids. -/
theorem exists_rename {b b' : Branch} (hwf : b.WF) (hwf' : b'.WF)
    (hnd : (b.nodes.map (·.id)).Nodup) (hcell : ∀ m ∈ b.nodes, m.cell = {})
    (hcell' : ∀ m ∈ b'.nodes, m.cell = {}) (hs : b.sketch = b'.sketch) :
    ∃ f : String → String, b' = b.rename f := by
  induction b generalizing b' with
  | leaf n =>
    cases b' with
    | join => simp [sketch] at hs
    | leaf n' =>
      simp only [sketch, Sketch.leaf.injEq] at hs
      refine ⟨fun _ => n'.id, ?_⟩
      have hn := hcell n (by simp)
      have hn' := hcell' n' (by simp)
      obtain ⟨id, comment, cell, body⟩ := n
      obtain ⟨id', comment', cell', body'⟩ := n'
      simp only at hs hn hn'
      obtain ⟨rfl, rfl⟩ := hs
      subst hn hn'
      simp [Node.rename, NodeBody.rename_of_isBlock (NodeBody.isBlock_of_isCondition hwf)]
  | join n w x y ihx ihy =>
    cases b' with
    | leaf => simp [sketch] at hs
    | join n' w' x' y' =>
      simp only [sketch, Sketch.join.injEq] at hs
      obtain ⟨hcomment, rfl, hx, hy⟩ := hs
      obtain ⟨hw, hxw, hyw⟩ := hwf
      obtain ⟨hw', hxw', hyw'⟩ := hwf'
      simp only [nodes_join, List.map_cons, List.map_append, List.nodup_cons, List.nodup_append,
        List.mem_append, not_or] at hnd
      obtain ⟨⟨hnx, hny⟩, hxnd, hynd, hdisj⟩ := hnd
      obtain ⟨f₁, rfl⟩ := ihx hxw hxw' hxnd (fun m hm => hcell m (by simp [hm]))
        (fun m hm => hcell' m (by simp [hm])) hx
      obtain ⟨f₂, rfl⟩ := ihy hyw hyw' hynd (fun m hm => hcell m (by simp [hm]))
        (fun m hm => hcell' m (by simp [hm])) hy
      -- the two renamings act on disjoint ids, and the block's own id goes to the new block's
      let f : String → String := fun i =>
        if i ∈ x.nodes.map (·.id) then f₁ i else if i ∈ y.nodes.map (·.id) then f₂ i else n'.id
      have hfx : ∀ i ∈ x.nodes.map (·.id), f i = f₁ i := fun i hi => if_pos hi
      have hfy : ∀ i ∈ y.nodes.map (·.id), f i = f₂ i := fun i hi => by
        have : i ∉ x.nodes.map (·.id) := fun hx => hdisj i hx i hi rfl
        exact (if_neg this).trans (if_pos hi)
      have hfn : f n.id = n'.id := (if_neg hnx).trans (if_neg hny)
      have hn : n.rename f = n' := by
        have hc := hcell n (by simp)
        have hc' := hcell' n' (by simp)
        have hx₀ := hfx _ (List.mem_map_of_mem x.root_mem_nodes)
        have hy₀ := hfy _ (List.mem_map_of_mem y.root_mem_nodes)
        obtain ⟨id, comment, cell, body⟩ := n
        obtain ⟨id', comment', cell', body'⟩ := n'
        simp only at hw hw' hc hc' hcomment hfn
        subst hc hc' hcomment hw hw'
        simp only [Node.rename, NodeBody.rename, List.map_cons, List.map_nil, hfn, hx₀, hy₀,
          root_rename]
      refine ⟨f, ?_⟩
      rw [rename_join, hn, rename_congr hxw hfx, rename_congr hyw hfy]

end Branch

/-! ## Lines read back -/

namespace Branch

/-- The lines of a well-formed branch of writable nodes load, on top of any stack, one branch
that binarises alike: the same conditions and comments, joined in the same way. -/
theorem grows_lines {b : Branch} (hwf : b.WF) (hw : ∀ m ∈ b.nodes, m.Writable)
    {ls : List ListingLine} (hl : b.lines = .ok ls) : Grows ls none (some b.sketch) := by
  induction b generalizing ls with
  | leaf n =>
    have hn := hw n (by simp)
    obtain ⟨l, hc⟩ := conditionLine_ok hwf "LOAD"
    obtain rfl : [l] = ls := by simpa [lines, hc, Functor.map, Except.map] using hl
    exact Grows.load ⟨hwf, hn.comment_clean, hn.regular⟩ hc
  | join n w x y ihx ihy =>
    obtain ⟨hn, hxw, hyw⟩ := hwf
    have hcomment : n.comment = none :=
      (hw n (by simp)).block_comment (by simp [hn, NodeBody.isBlock])
    obtain ⟨lx, hlx⟩ := lines_ok hxw
    have hgx := ihx hxw (fun m hm => hw m (by simp [hm])) hlx
    by_cases hser : (w == .series && !y.root.body.isBlock) = true
    · -- the second branch is a condition, joined in series by its own line
      obtain ⟨m, rfl⟩ : ∃ m, y = leaf m := by
        cases y with
        | leaf m => exact ⟨m, rfl⟩
        | join m w' f' s' =>
          simp only [wf_join] at hyw
          simp [hyw.1, NodeBody.isBlock] at hser
      simp only [root_leaf, Bool.and_eq_true, beq_iff_eq, Bool.not_eq_eq_eq_not,
        Bool.not_true] at hser
      obtain ⟨rfl, hmb⟩ := hser
      obtain ⟨l, hl'⟩ := conditionLine_ok hyw "AND"
      obtain rfl : lx ++ [l] = ls := by
        simpa [lines, hlx, hl', hmb, bind, Except.bind, pure, Except.pure] using hl
      have hm := hw m (by simp)
      simpa [sketch, hcomment] using
        hgx.append (Grows.series ⟨hyw, hm.comment_clean, hm.regular⟩ hl' x.sketch)
    · obtain ⟨ly, hly⟩ := lines_ok hyw
      obtain rfl : lx ++ ly ++ [joinLine w] = ls := by
        simpa [lines, hlx, hser, hly, bind, Except.bind, pure, Except.pure] using hl
      have hgy := ihy hyw (fun m hm => hw m (by simp [hm])) hly
      simpa [sketch, hcomment, List.append_assoc] using hgx.append (hgy.joined w x.sketch)

end Branch

/-! ## Rows read back, assembled -/

/-- A row of the logic path describes no tap. -/
theorem tapOf?_eq_none_of_onPath {r : Row}
    (h : (lookupInstruction r.instruction).map Instruction.onPath = some true) : tapOf? r = none := by
  obtain ⟨i, hi, hon⟩ := Option.map_eq_some_iff.mp h
  cases i <;> simp_all [tapOf?, Assembler.tapBody, Instruction.onPath]

/-- The assembler does not read a row's number or step. -/
theorem assembleRow_row (acc : Assembler × List Node) (l : ListingLine) (seq st : Nat) :
    assembleRow acc (l.row seq st) = assembleRow acc (l.row 0 0) := by
  simp only [assembleRow, Assembler.step, Assembler.conditionBody, Assembler.tapBody,
    ListingLine.row]

/-- Rows that read back lines, under any numbers and steps, are assembled as the lines' rows. -/
theorem foldl_assembleRow_read {ls : List ListingLine} {rows : List Row}
    (h : List.Forall₂ (fun l r => ∃ seq st, r = l.row seq st) ls rows)
    (acc : Assembler × List Node) :
    rows.foldl assembleRow acc = (ls.map (·.row 0 0)).foldl assembleRow acc := by
  induction h generalizing acc with
  | nil => rfl
  | cons hr _ ih =>
    obtain ⟨seq, st, rfl⟩ := hr
    rw [List.map_cons, List.foldl_cons, List.foldl_cons, assembleRow_row _ _ seq st]
    exact ih _

/-- Rows of the logic path build no tap: assembled, they do what they do fed to the assembler. -/
theorem foldl_assembleRow_onPath {ls : List ListingLine} (h : ∀ l ∈ ls, l.OnPath)
    (a : Assembler) (taps : List Node) :
    (ls.map (·.row 0 0)).foldl assembleRow (a, taps) = (a.feed ls, taps) := by
  induction ls generalizing a with
  | nil => rfl
  | cons l ls ih =>
    have hon : (lookupInstruction (l.row 0 0).instruction).map Instruction.onPath = some true :=
      (h l (by simp)).2.2
    -- the row builds no tap, so it leaves the taps and moves the state as the assembler does
    have hrow : assembleRow (a, taps) (l.row 0 0) = (a.perform (.row (l.row 0 0)), taps) := by
      cases hs : a.step (l.row 0 0) with
      | none => simp [assembleRow, Assembler.perform, hs]
      | some p =>
        obtain ⟨n, a'⟩ := p
        have hn : n.body.isTap = false := by
          have := Assembler.step_tapOf hs
          rw [tapOf?_eq_none_of_onPath hon] at this
          cases hn : n.body.isTap <;> simp_all
        simp [assembleRow, Assembler.perform, hs, hn]
    rw [List.map_cons, List.foldl_cons, Assembler.feed_cons, hrow]
    exact ih (fun l' hl' => h l' (by simp [hl'])) _

/-- The rows of the lines of writable taps build the taps again, in order, each under an id of
its own and with all its other fields. -/
theorem foldl_assembleRow_taps {ts : List Node} (hw : ∀ t ∈ ts, t.Writable)
    (ht : ∀ t ∈ ts, t.body.isTap = true) {lp : List ListingLine} (hl : ts.mapM tapLine = .ok lp)
    (a : Assembler) (acc : List Node) :
    ∃ ts' : List Node, (lp.map (·.row 0 0)).foldl assembleRow (a, acc) =
      ({ a with count := a.count + ts.length }, acc ++ ts') ∧
      List.Forall₂ (fun t t' => t' = { t with id := t'.id }) ts ts' := by
  induction ts generalizing lp a acc with
  | nil =>
    obtain rfl : [] = lp := by simpa [pure, Except.pure] using hl
    exact ⟨[], by simp, .nil⟩
  | cons t ts ih =>
    cases hlt : tapLine t with
    | error e => simp [hlt, bind, Except.bind] at hl
    | ok l =>
      cases hlp : ts.mapM tapLine with
      | error e => simp [hlt, hlp, bind, Except.bind] at hl
      | ok lp' =>
        obtain rfl : l :: lp' = lp := by
          simpa [hlt, hlp, bind, Except.bind, pure, Except.pure] using hl
        have hstep := Assembler.step_tap (a := a) 0 0 (hw t (by simp)) hlt
        have hrow : assembleRow (a, acc) (l.row 0 0) =
            ({ a with count := a.count + 1 }, acc ++ [{ t with id := a.nextId }]) := by
          simp [assembleRow, hstep, ht t (by simp)]
        obtain ⟨ts', hfold, hrel⟩ := ih (fun t' h => hw t' (by simp [h]))
          (fun t' h => ht t' (by simp [h])) hlp { a with count := a.count + 1 }
          (acc ++ [{ t with id := a.nextId }])
        refine ⟨{ t with id := a.nextId } :: ts', ?_, .cons rfl hrel⟩
        have hc : a.count + 1 + ts.length = a.count + (ts.length + 1) := by omega
        rw [List.map_cons, List.foldl_cons, hrow, hfold]
        simp only [List.length_cons, List.append_assoc, List.singleton_append, hc]

/-- Taps rebuilt under new ids are the old ones under a renaming. -/
theorem exists_rename_of_forall₂ {ts ts' : List Node}
    (h : List.Forall₂ (fun t t' => t' = { t with id := t'.id }) ts ts')
    (hnd : (ts.map (·.id)).Nodup) (hb : ∀ t ∈ ts, t.body.isTap = true) :
    ∃ g : String → String, ts' = ts.map (Node.rename g) := by
  induction h with
  | nil => exact ⟨id, rfl⟩
  | @cons t t' ts ts' ht _ ih =>
    obtain ⟨htn, hnd⟩ := List.nodup_cons.mp hnd
    obtain ⟨g, rfl⟩ := ih hnd (fun m hm => hb m (by simp [hm]))
    refine ⟨Function.update g t.id t'.id, ?_⟩
    -- the new id goes to the head alone: no other id of the list is the head's
    have hrest : ts.map (Node.rename (Function.update g t.id t'.id)) = ts.map (Node.rename g) := by
      refine List.map_congr_left fun m hm => Node.rename_congr ?_ ?_
      · exact Function.update_of_ne (fun he => htn (List.mem_map.mpr ⟨m, hm, he⟩)) _ _
      · simp [NodeBody.children_of_isTap (hb m (by simp [hm]))]
    rw [List.map_cons, hrest, ht]
    simp [Node.rename, NodeBody.rename_of_isBlock (NodeBody.isBlock_of_isTap (hb t (by simp)))]

/-! ## Networks rebuilt -/

namespace Assembler

/-- Ids spent on nodes kept elsewhere leave the forest as it is. -/
theorem Holds.bump {a : Assembler} {bs ps : List Branch} (h : Holds a bs ps) (k : Nat) :
    Holds { a with count := a.count + k } bs ps := by
  refine ⟨h.stack_eq, h.wf, h.perm, ?_⟩
  obtain ⟨ks, hks, hsort, hle⟩ := h.numbered
  exact ⟨ks, hks, hsort, fun k' hk => Nat.le_add_right_of_le (hle k' hk)⟩

/-- With nothing pending, finishing the rung leaves the state as it is. -/
theorem result_of_pendingOr_nil {a : Assembler} (h : a.pendingOr = []) :
    a.result = (a.stack.head?, a) := by
  obtain ⟨stack, pendingOr, nodes, count⟩ := a
  simp only at h
  subst h
  rfl

/-- Rows build every node in the first cell; layout moves them later. -/
theorem keeps_cell (rows : List Row) : Keeps (·.cell = {}) rows where
  condition _ _ _ _ _ _ _ := rfl
  tap _ _ _ _ _ _ _ := rfl
  block _ _ _ := rfl

end Assembler

/-- A network of a step laid out as the builder lays out every network: its logic tree, if it
has one, from the top-left cell, and its taps one per row in the column just right of the
tree. -/
def laidOut (step : Int) (tree : Option Branch) (taps : List Node) (comment : Option String) :
    Network :=
  { id := "network_" ++ toString step, step,
    nodes := tree.elim [] (·.placed {}) ++
      taps.zipIdx.map fun (t, i) => t.placeAt ⟨i, (tree.elim 0 fun b => b.span.cols : Nat)⟩,
    rootId := tree.map (·.root.id), comment }

theorem Shape.network_eq_laidOut (s : Shape) (step : Int) (comment : Option String) :
    s.network step comment = laidOut step s.tree s.taps comment := rfl

/-- Layout does not read ids: a network laid out from renamed nodes is the network renamed. -/
theorem rename_laidOut (f : String → String) (step : Int) (tree : Option Branch)
    (taps : List Node) (comment : Option String) :
    (laidOut step tree taps comment).rename f =
      laidOut step (tree.map (·.rename f)) (taps.map (Node.rename f)) comment := by
  cases tree <;> simp [laidOut, Network.rename, Branch.placed_rename, Branch.span_rename,
    Branch.root_rename, List.zipIdx_map, Node.rename_placeAt]

/-- The network of a step whose rows leave one branch or none on the stack and nothing pending
is laid out from that branch and the taps the rows built. -/
theorem buildNetwork_of_holds {a a' : Assembler} {rows : List Row} {taps : List Node}
    {cur : Option Branch} (hx : assembleRows a.reset rows = (a', taps))
    (hH : Assembler.Holds a' cur.toList []) (hp : a'.pendingOr = []) (step : Int) :
    (buildNetwork a step rows).1 = laidOut step cur taps (firstComment rows) := by
  have hres := Assembler.result_of_pendingOr_nil hp
  cases cur with
  | none =>
    have hs : a'.stack = [] := by simpa using hH.stack_eq
    simp [buildNetwork, hx, hres, hs, laidOut]
  | some b =>
    have hs : a'.stack = [b.root] := by simpa using hH.stack_eq
    have hlay := layout_branch (hH.wf b (by simp)).1 hH.ids_nodup (hH.branch_ids_nodup (by simp))
      (fun m hm => hH.mem_of_mem_branch (by simp) hm) {}
    simp [buildNetwork, hx, hres, hs, hlay, laidOut]

namespace Shape

variable (s : Shape)

theorem taps_ids_nodup : (s.taps.map (·.id)).Nodup := by
  have h := s.ids_nodup
  rw [List.map_append] at h
  exact List.Nodup.sublist (List.sublist_append_right _ _) h

theorem tap_id_not_mem_logic {t : Node} (ht : t ∈ s.taps) : t.id ∉ s.logic.map (·.id) := by
  have h := s.ids_nodup
  rw [List.map_append, List.nodup_append] at h
  exact fun hl => h.2.2 _ hl _ (List.mem_map_of_mem ht) rfl

/-- The logic tree is written as lines, none without a tree. -/
theorem exists_treeLines : ∃ lt, s.tree.elim (.ok []) Branch.lines = .ok lt := by
  cases h : s.tree with
  | none => exact ⟨[], rfl⟩
  | some b => simpa using Branch.lines_ok (s.tree_wf b h)

/-- The lines of the network of a shape are its tree's, then one for each tap. -/
theorem networkLines_split {step : Int} {comment : Option String} {ls : List ListingLine}
    (hls : networkLines (s.network step comment) = .ok ls) :
    ∃ lt lp, s.tree.elim (.ok []) Branch.lines = .ok lt ∧ s.taps.mapM tapLine = .ok lp ∧
      ls = lt ++ lp := by
  obtain ⟨lt, hlt⟩ := s.exists_treeLines
  obtain ⟨lp, hlp⟩ := mapM_tapLine_ok s.taps_isTap
  exact ⟨lt, lp, hlt, hlp, Except.ok.inj (hls.symm.trans (networkLines_network s step comment hlt hlp))⟩

/-- The lines of the logic tree load it again as one branch, or load nothing without a tree. -/
theorem grows_tree (hw : ∀ m ∈ s.logic, m.Writable) {lt : List ListingLine}
    (hlt : s.tree.elim (.ok []) Branch.lines = .ok lt) : Grows lt none (s.tree.map Branch.sketch) := by
  cases h : s.tree with
  | none =>
    obtain rfl : [] = lt := by simpa [h] using hlt
    exact Grows.nil none
  | some b =>
    exact Branch.grows_lines (s.tree_wf b h) (fun m hm => hw m (by simp [logic, h, hm]))
      (by simpa [h] using hlt)

/-- A branch that binarises as the logic tree does, in the first cell, is the tree renamed. -/
theorem exists_rename_tree (hw : ∀ m ∈ s.logic, m.Writable) {cur : Option Branch}
    (hwf : ∀ b ∈ cur, b.WF) (hcell : ∀ b ∈ cur, ∀ m ∈ b.nodes, m.cell = {})
    (hs : cur.map Branch.sketch = s.tree.map Branch.sketch) :
    ∃ f : String → String, cur = s.tree.map (·.rename f) := by
  cases h : s.tree with
  | none =>
    obtain rfl : cur = none := by simpa [h] using hs
    exact ⟨id, rfl⟩
  | some b =>
    obtain ⟨b', rfl⟩ : ∃ b', cur = some b' := by cases cur <;> simp_all
    have hnd : (b.nodes.map (·.id)).Nodup := by simpa [logic, h] using s.logic_ids_nodup
    obtain ⟨f, rfl⟩ := Branch.exists_rename (s.tree_wf b h) (hwf b' rfl) hnd
      (fun m hm => (hw m (by simp [logic, h, hm])).cell_eq) (hcell b' rfl) (by simpa [h] using hs.symm)
    exact ⟨f, rfl⟩

/-- Renamings of the tree and of the taps make one renaming of the network: the tree's on its
ids, the taps' on the others. -/
theorem exists_rename_parts (f₁ g : String → String) :
    ∃ f : String → String, s.tree.map (·.rename f) = s.tree.map (·.rename f₁) ∧
      s.taps.map (Node.rename f) = s.taps.map (Node.rename g) := by
  refine ⟨fun i => if i ∈ s.logic.map (·.id) then f₁ i else g i, ?_, ?_⟩
  · cases h : s.tree with
    | none => rfl
    | some b =>
      rw [Option.map_some, Option.map_some,
        Branch.rename_congr (s.tree_wf b h) fun i hi => if_pos (by simpa [logic, h] using hi)]
  · refine List.map_congr_left fun t ht => Node.rename_congr (if_neg (s.tap_id_not_mem_logic ht)) ?_
    simp [NodeBody.children_of_isTap (s.taps_isTap t ht)]

/-- Rows that read back the lines of the network of a shape of writable nodes, in order and
under any numbers and steps, rebuild that network on every state of the assembler: the same
network under a renaming that keeps its ids distinct, with the rows' first comment. -/
theorem rebuilds (hw : ∀ m ∈ s.logic ++ s.taps, m.Writable) (step : Int)
    (comment : Option String) {ls : List ListingLine}
    (hls : networkLines (s.network step comment) = .ok ls) {rows : List Row}
    (hrows : List.Forall₂ (fun l r => ∃ seq st, r = l.row seq st) ls rows) (a : Assembler) :
    ∃ f : String → String, ((s.network step comment).ids.map f).Nodup ∧
      (buildNetwork a step rows).1 =
        { (s.network step comment).rename f with comment := firstComment rows } := by
  have hwl : ∀ m ∈ s.logic, m.Writable := fun m hm => hw m (List.mem_append_left _ hm)
  have hwt : ∀ t ∈ s.taps, t.Writable := fun t ht => hw t (List.mem_append_right _ ht)
  -- the lines are the tree's, which load it again, then the taps'
  obtain ⟨lt, lp, hlt, hlp, rfl⟩ := s.networkLines_split hls
  have hgrow := s.grows_tree hwl hlt
  obtain ⟨cur, hH, hcur⟩ := hgrow.feeds a.reset none [] (Assembler.holds_reset a) rfl
  rw [List.append_nil] at hH
  have hp : (a.reset.feed lt).pendingOr = [] := by
    have := Assembler.pendingOr_run (a := a.reset) fun r (hr : r ∈ lt.map (·.row 0 0)) => by
      obtain ⟨l, hl, rfl⟩ := List.mem_map.mp hr
      exact (hgrow.onPath l hl).2.2
    rw [List.map_map] at this
    exact this
  -- the rows of the tree build no tap; those of the taps build them again
  obtain ⟨taps', hfold, hrel⟩ := foldl_assembleRow_taps hwt s.taps_isTap hlp (a.reset.feed lt) []
  have hx : assembleRows a.reset rows =
      ({ a.reset.feed lt with count := (a.reset.feed lt).count + s.taps.length }, taps') := by
    rw [assembleRows, foldl_assembleRow_read hrows, List.map_append, List.foldl_append,
      foldl_assembleRow_onPath hgrow.onPath, hfold, List.nil_append]
  have hcell : ∀ m ∈ (a.reset.feed lt).nodes, m.cell = {} := by
    intro m hm
    have hres := Assembler.result_of_pendingOr_nil (a := (assembleRows a.reset rows).1)
      (by rw [hx]; exact hp)
    apply ((Assembler.keeps_cell rows).assembleRows a).1 m
    rw [hres, hx]
    exact hm
  obtain ⟨f₁, rfl⟩ := s.exists_rename_tree hwl (fun b hb => (hH.wf b (by simpa using hb)).1)
    (fun b hb m hm => hcell m (hH.mem_of_mem_branch (by simpa using hb) hm)) hcur
  obtain ⟨g, rfl⟩ := exists_rename_of_forall₂ hrel s.taps_ids_nodup s.taps_isTap
  obtain ⟨f, htree, htaps⟩ := s.exists_rename_parts f₁ g
  have hN : (buildNetwork a step rows).1 =
      { (s.network step comment).rename f with comment := firstComment rows } := by
    rw [buildNetwork_of_holds hx (hH.bump s.taps.length) hp step, network_eq_laidOut,
      rename_laidOut, htree, htaps]
    rfl
  refine ⟨f, ?_, hN⟩
  -- the rebuilt network has distinct ids, and they are the old ones renamed
  obtain ⟨s', hs', -⟩ := Assembler.buildNetwork_shape a step rows
  have hnd := s'.ids_network_nodup step (firstComment rows)
  rw [← hs', hN] at hnd
  simpa [Network.ids, Network.rename, List.map_map, Function.comp_def] using hnd

end Shape

end RelayLadder
