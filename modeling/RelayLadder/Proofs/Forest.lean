import RelayLadder.Proofs.Branch
import RelayLadder.Rung.Assembler
import Std.Data.String.ToNat
import Mathlib.Data.List.Pairwise

/-! # The assembler keeps a forest

Every state the assembler reaches after a reset is a forest over its arena: the branches on
the stack and the pending parallel branches are the roots of binary trees whose blocks are
numbered above their children, the trees share no node, and together they hold every node of
the arena once. Taps take ids but never enter the arena.

The proof reads each state as a list of `Branch`es (`Holds`). `Move` says once what a row can
do, so the invariant is kept by one case per kind of move, and by induction over the pending
branches for finishing the rung. `Forest` is the same invariant stated on the arena alone.
-/

namespace RelayLadder

namespace Assembler

theorem nodeId_injective : Function.Injective nodeId := fun _ _ h =>
  Nat.repr_injective ((String.append_right_inj _).mp h)

theorem conditionBody_isCondition {row : Row} {i : Instruction} {body : NodeBody}
    (h : conditionBody row i = some body) : body.isCondition = true := by
  unfold conditionBody at h
  split at h
  · simp only [bind, Option.bind_eq_some_iff, pure, Option.some.injEq] at h
    obtain ⟨l, -, r, -, rfl⟩ := h
    rfl
  · obtain ⟨a, -, rfl⟩ := Option.map_eq_some_iff.mp h
    rfl
  · simp at h

theorem tapBody_isTap {row : Row} {i : Instruction} {body : NodeBody}
    (h : tapBody row i = some body) : body.isTap = true := by
  cases i with
  | coil t neg | timer t | counter t =>
      simp only [tapBody] at h
      obtain ⟨a, -, rfl⟩ := Option.map_eq_some_iff.mp h
      rfl
  | math op =>
      cases op <;>
        simp only [tapBody, bind, Option.bind_eq_some_iff, pure, Option.some.injEq] at h <;>
        obtain ⟨s, -, d, -, rfl⟩ := h <;> rfl
  | contact | compare | joinBranches => simp [tapBody] at h

/-- What a row that builds something does to the assembler. Every node it builds takes the
next id, and every block names the roots it joins. -/
inductive Move : Assembler → Node → Assembler → Prop where
  /-- A condition is pushed as a new branch. -/
  | push (a : Assembler) (n : Node) :
      n.id = nodeId (a.count + 1) → n.body.isCondition = true →
      Move a n { a with stack := n :: a.stack, nodes := a.nodes ++ [n], count := a.count + 1 }
  /-- A condition joins the latest branch in series. -/
  | series (a : Assembler) (c top : Node) (rest : List Node) :
      a.stack = top :: rest → c.id = nodeId (a.count + 1) → c.body.isCondition = true →
      Move a { id := nodeId (a.count + 2), body := .block .series [top.id, c.id] }
        { a with stack := { id := nodeId (a.count + 2), body := .block .series [top.id, c.id] } :: rest,
                 nodes := a.nodes ++ [c, { id := nodeId (a.count + 2), body := .block .series [top.id, c.id] }],
                 count := a.count + 2 }
  /-- A condition waits to join in parallel. -/
  | wait (a : Assembler) (n : Node) :
      n.id = nodeId (a.count + 1) → n.body.isCondition = true →
      Move a n { a with pendingOr := n :: a.pendingOr, nodes := a.nodes ++ [n],
                        count := a.count + 1 }
  /-- The two latest branches are joined. -/
  | join (a : Assembler) (w : Wiring) (newer older : Node) (rest : List Node) :
      a.stack = newer :: older :: rest →
      Move a { id := nodeId (a.count + 1), body := .block w [older.id, newer.id] }
        { a with stack := { id := nodeId (a.count + 1), body := .block w [older.id, newer.id] } :: rest,
                 nodes := a.nodes ++ [{ id := nodeId (a.count + 1), body := .block w [older.id, newer.id] }],
                 count := a.count + 1 }
  /-- A tap is built: it takes an id and stays out of the arena. -/
  | tap (a : Assembler) (n : Node) :
      n.id = nodeId (a.count + 1) → n.body.isTap = true → Move a n { a with count := a.count + 1 }

theorem move_of_link {a a' : Assembler} {c : Option String} {body : NodeBody} {n : Node}
    (hb : body.isCondition = true) (l : Link)
    (h : (a.keep c body).2.link l (a.keep c body).1 = (n, a')) : Move a n a' := by
  have hn : n = ((a.keep c body).2.link l (a.keep c body).1).1 := by rw [h]
  have ha : a' = ((a.keep c body).2.link l (a.keep c body).1).2 := by rw [h]
  subst hn ha
  cases l with
  | load => exact .push a _ rfl hb
  | and =>
      cases hs : a.stack with
      | nil =>
          have := Move.push a (a.keep c body).1 rfl hb
          simpa [link, keep, fresh, hs] using this
      | cons top rest =>
          have := Move.series a (a.keep c body).1 top rest hs rfl hb
          simpa [link, keep, fresh, join, nextId, hs, Nat.add_assoc] using this
  | or => exact .wait a _ rfl hb

/-- What a row that builds something does: it names an instruction, and either builds the
condition it describes and places it by its link, or joins the two latest branches, or builds
the tap it describes. -/
theorem step_cases {a a' : Assembler} {row : Row} {n : Node} (h : a.step row = some (n, a')) :
    ∃ i, lookupInstruction row.instruction = some i ∧
      ((∃ l body, conditionBody row i = some body ∧ tapBody row i = none ∧
          (a.keep row.comment body).2.link l (a.keep row.comment body).1 = (n, a')) ∨
        (∃ w, i = .joinBranches w ∧ a.joinLatest w = some (n, a')) ∨
        (∃ body, tapBody row i = some body ∧ a.fresh row.comment body = (n, a'))) := by
  unfold step at h
  split at h
  · simp at h
  · rename_i i hi
    refine ⟨i, hi, ?_⟩
    cases i with
    | contact l t | compare l t =>
        obtain ⟨body, hb, h⟩ := Option.map_eq_some_iff.mp h
        exact .inl ⟨l, body, hb, rfl, h⟩
    | joinBranches w => exact .inr (.inl ⟨w, rfl, h⟩)
    | coil t neg | timer t | counter t | math t =>
        obtain ⟨body, hb, h⟩ := Option.map_eq_some_iff.mp h
        exact .inr (.inr ⟨body, hb, h⟩)

theorem step_move {a a' : Assembler} {row : Row} {n : Node} (h : a.step row = some (n, a')) :
    Move a n a' := by
  obtain ⟨i, -, ⟨l, body, hb, -, h⟩ | ⟨w, -, h⟩ | ⟨body, hb, h⟩⟩ := step_cases h
  · exact move_of_link (conditionBody_isCondition hb) l h
  · unfold joinLatest at h
    split at h
    · rename_i newer older rest hs
      obtain ⟨rfl, rfl⟩ := Prod.mk.inj (Option.some.inj h)
      simpa [join, keep, fresh, nextId] using Move.join a w newer older rest hs
    · simp at h
  · obtain ⟨rfl, rfl⟩ := Prod.mk.inj h
    exact .tap a _ rfl (tapBody_isTap hb)

end Assembler

/-- Every block of a branch is numbered above its two children. -/
def Branch.Serial : Branch → Prop
  | .leaf _ => True
  | .join n _ f s =>
      (∃ i j k, f.root.id = Assembler.nodeId i ∧ s.root.id = Assembler.nodeId j ∧
        n.id = Assembler.nodeId k ∧ i < k ∧ j < k) ∧ f.Serial ∧ s.Serial

/-- Every block of a numbered branch joins two children numbered below it. -/
theorem Branch.block_numbered {b : Branch} (hwf : b.WF) (hs : b.Serial) {m : Node}
    (hm : m ∈ b.nodes) (hblock : m.body.isBlock = true) :
    ∃ w i j k, m.body = .block w [Assembler.nodeId i, Assembler.nodeId j] ∧
      m.id = Assembler.nodeId k ∧ i < k ∧ j < k := by
  induction b with
  | leaf n =>
      obtain rfl : m = n := by simpa using hm
      cases hb : m.body <;> simp_all [NodeBody.isCondition, NodeBody.isBlock]
  | join n w f s ihf ihs =>
      obtain ⟨hw, hf, hs'⟩ := hwf
      obtain ⟨⟨i, j, k, hi, hj, hk, hik, hjk⟩, sf, ss⟩ := hs
      simp only [Branch.nodes_join, List.mem_cons, List.mem_append] at hm
      rcases hm with rfl | hm | hm
      · exact ⟨w, i, j, k, by rw [hw, hi, hj], hk, hik, hjk⟩
      · exact ihf hf sf hm
      · exact ihs hs' ss hm

namespace Assembler

/-- The assembler's state read as branches: the stack holds the roots of `bs`; the branches
`bs` and `ps` are well formed and numbered and together hold the arena, every node once; and
the arena's ids are `node_k` for increasing `k` up to the counter. -/
structure Holds (a : Assembler) (bs ps : List Branch) : Prop where
  stack_eq : a.stack = bs.map Branch.root
  wf : ∀ b ∈ bs ++ ps, b.WF ∧ b.Serial
  perm : ((bs ++ ps).flatMap Branch.nodes).Perm a.nodes
  numbered : ∃ ks : List Nat, a.nodes.map (·.id) = ks.map nodeId ∧ ks.Pairwise (· < ·) ∧ ∀ k ∈ ks, k ≤ a.count

namespace Holds

variable {a : Assembler} {bs ps : List Branch}

theorem number_of_mem (h : Holds a bs ps) {m : Node} (hm : m ∈ a.nodes) :
    ∃ i ≤ a.count, m.id = nodeId i := by
  obtain ⟨ks, hks, -, hle⟩ := h.numbered
  obtain ⟨i, hi, he⟩ := List.mem_map.mp (hks ▸ List.mem_map_of_mem hm : m.id ∈ ks.map nodeId)
  exact ⟨i, hle i hi, he.symm⟩

theorem mem_of_mem_branch (h : Holds a bs ps) {b : Branch} (hb : b ∈ bs ++ ps) {m : Node}
    (hm : m ∈ b.nodes) : m ∈ a.nodes :=
  h.perm.subset (List.mem_flatMap.mpr ⟨b, hb, hm⟩)

theorem root_number (h : Holds a bs ps) {b : Branch} (hb : b ∈ bs ++ ps) :
    ∃ i ≤ a.count, b.root.id = nodeId i :=
  h.number_of_mem (h.mem_of_mem_branch hb b.root_mem_nodes)

/-- The arena grows by nodes numbered just above the counter. -/
theorem numbered_append (h : Holds a bs ps) (new : List Node) (ks' : List Nat)
    (hnew : new.map (·.id) = ks'.map nodeId) (hlo : ∀ k ∈ ks', a.count < k)
    (hsorted : ks'.Pairwise (· < ·)) {c : Nat} (hhi : ∀ k ∈ ks', k ≤ c) (hc : a.count ≤ c) :
    ∃ ks : List Nat, (a.nodes ++ new).map (·.id) = ks.map nodeId ∧ ks.Pairwise (· < ·) ∧ ∀ k ∈ ks, k ≤ c := by
  obtain ⟨ks, hks, hsort, hle⟩ := h.numbered
  refine ⟨ks ++ ks', by simp [hks, hnew], ?_, ?_⟩
  · refine List.pairwise_append.mpr ⟨hsort, hsorted, fun i hi j hj => ?_⟩
    exact Nat.lt_of_le_of_lt (hle i hi) (hlo j hj)
  · intro k hk
    rcases List.mem_append.mp hk with hk | hk
    · exact Nat.le_trans (hle k hk) hc
    · exact hhi k hk

/-- A forest that grows by new nodes: the arena grows by the same nodes. -/
theorem perm_grow {X Y X' N : List Node} (h : X.Perm Y) (h' : X'.Perm (X ++ N)) :
    X'.Perm (Y ++ N) :=
  h'.trans (h.append_right N)

theorem stack_cons (h : Holds a bs ps) {top : Node} {rest : List Node}
    (hs : a.stack = top :: rest) :
    ∃ b br, bs = b :: br ∧ b.root = top ∧ rest = br.map Branch.root := by
  rw [h.stack_eq] at hs
  obtain ⟨b, br, rfl, hb, hr⟩ := List.map_eq_cons_iff.mp hs
  exact ⟨b, br, rfl, hb, hr.symm⟩

/-- A condition pushed as a new branch is a leaf of the forest. -/
theorem push (h : Holds a bs ps) {n : Node} (hid : n.id = nodeId (a.count + 1))
    (hc : n.body.isCondition = true) :
    Holds { a with stack := n :: a.stack, nodes := a.nodes ++ [n], count := a.count + 1 }
      (.leaf n :: bs) ps := by
  refine ⟨by simp [h.stack_eq], ?_, ?_, ?_⟩
  · intro b hb
    rcases List.mem_cons.mp hb with rfl | hb
    · exact ⟨hc, trivial⟩
    · exact h.wf b hb
  · refine perm_grow h.perm (List.perm_iff_count.mpr fun x => ?_)
    simp only [List.cons_append, List.flatMap_cons, List.flatMap_append, Branch.nodes_leaf,
      List.count_cons, List.count_append, List.count_nil]
    omega
  · exact h.numbered_append [n] [a.count + 1] (by simp [hid]) (by simp) (by simp) (by simp)
      (by simp)

/-- A condition that joins the latest branch in series makes it the first branch of a new
series block, numbered just above the condition. -/
theorem series {b : Branch} {br : List Branch} (h : Holds a (b :: br) ps) {c : Node}
    (hid : c.id = nodeId (a.count + 1)) (hc : c.body.isCondition = true) :
    Holds { a with
        stack := { id := nodeId (a.count + 2), body := .block .series [b.root.id, c.id] } ::
          br.map Branch.root,
        nodes := a.nodes ++ [c, { id := nodeId (a.count + 2), body := .block .series [b.root.id, c.id] }],
        count := a.count + 2 }
      (.join { id := nodeId (a.count + 2), body := .block .series [b.root.id, c.id] } .series b
        (.leaf c) :: br) ps := by
  have hwf := h.wf b (by simp)
  obtain ⟨i, hi, hbi⟩ := h.root_number (b := b) (by simp)
  refine ⟨rfl, ?_, ?_, ?_⟩
  · intro b' hb'
    rcases List.mem_cons.mp hb' with rfl | hb'
    · exact ⟨⟨rfl, hwf.1, hc⟩,
        ⟨⟨i, a.count + 1, a.count + 2, hbi, hid, rfl, by omega, by omega⟩, hwf.2, trivial⟩⟩
    · exact h.wf b' (List.mem_cons_of_mem _ hb')
  · refine perm_grow h.perm (List.perm_iff_count.mpr fun x => ?_)
    simp only [List.cons_append, List.flatMap_cons, List.flatMap_append, Branch.nodes_leaf,
      Branch.nodes_join, List.count_cons, List.count_append, List.count_nil]
    omega
  · exact h.numbered_append _ [a.count + 1, a.count + 2] (by simp [hid]) (by simp) (by simp)
      (by simp) (by simp)

/-- A condition that waits to join in parallel is a pending leaf of the forest. -/
theorem wait (h : Holds a bs ps) {n : Node} (hid : n.id = nodeId (a.count + 1))
    (hc : n.body.isCondition = true) :
    Holds { a with pendingOr := n :: a.pendingOr, nodes := a.nodes ++ [n], count := a.count + 1 }
      bs (.leaf n :: ps) := by
  refine ⟨h.stack_eq, ?_, ?_, ?_⟩
  · intro b hb
    rcases List.mem_append.mp hb with hb | hb
    · exact h.wf b (List.mem_append_left _ hb)
    · rcases List.mem_cons.mp hb with rfl | hb
      · exact ⟨hc, trivial⟩
      · exact h.wf b (List.mem_append_right _ hb)
  · refine perm_grow h.perm (List.perm_iff_count.mpr fun x => ?_)
    simp only [List.cons_append, List.flatMap_cons, List.flatMap_append, Branch.nodes_leaf,
      List.count_cons, List.count_append, List.count_nil]
    omega
  · exact h.numbered_append [n] [a.count + 1] (by simp [hid]) (by simp) (by simp) (by simp)
      (by simp)

/-- The two latest branches joined make one block, the older branch first. -/
theorem join {bn bo : Branch} {br : List Branch} (h : Holds a (bn :: bo :: br) ps) (w : Wiring) :
    Holds { a with
        stack := { id := nodeId (a.count + 1), body := .block w [bo.root.id, bn.root.id] } ::
          br.map Branch.root,
        nodes := a.nodes ++ [{ id := nodeId (a.count + 1), body := .block w [bo.root.id, bn.root.id] }],
        count := a.count + 1 }
      (.join { id := nodeId (a.count + 1), body := .block w [bo.root.id, bn.root.id] } w bo bn
        :: br) ps := by
  have hwfn := h.wf bn (by simp)
  have hwfo := h.wf bo (by simp)
  obtain ⟨i, hi, hbi⟩ := h.root_number (b := bo) (by simp)
  obtain ⟨j, hj, hbj⟩ := h.root_number (b := bn) (by simp)
  refine ⟨rfl, ?_, ?_, ?_⟩
  · intro b' hb'
    rcases List.mem_cons.mp hb' with rfl | hb'
    · exact ⟨⟨rfl, hwfo.1, hwfn.1⟩,
        ⟨⟨i, j, a.count + 1, hbi, hbj, rfl, by omega, by omega⟩, hwfo.2, hwfn.2⟩⟩
    · exact h.wf b' (List.mem_cons_of_mem _ (List.mem_cons_of_mem _ hb'))
  · refine perm_grow h.perm (List.perm_iff_count.mpr fun x => ?_)
    simp only [List.cons_append, List.flatMap_cons, List.flatMap_append, Branch.nodes_join,
      List.count_cons, List.count_append, List.count_nil]
    omega
  · exact h.numbered_append _ [a.count + 1] (by simp) (by simp) (by simp) (by simp) (by simp)

/-- A tap takes an id and leaves the forest as it is. -/
theorem tap (h : Holds a bs ps) : Holds { a with count := a.count + 1 } bs ps := by
  refine ⟨h.stack_eq, h.wf, h.perm, ?_⟩
  obtain ⟨ks, hks, hsort, hle⟩ := h.numbered
  exact ⟨ks, hks, hsort, fun k hk => Nat.le_succ_of_le (hle k hk)⟩

/-- One move keeps the assembler's state a forest of numbered branches. -/
theorem of_move (h : Holds a bs ps) (hp : a.pendingOr = ps.map Branch.root)
    {n : Node} {a' : Assembler} (hm : Move a n a') :
    ∃ bs' ps', Holds a' bs' ps' ∧ a'.pendingOr = ps'.map Branch.root := by
  cases hm with
  | push n hid hc => exact ⟨_, ps, h.push hid hc, hp⟩
  | series c top rest hs hid hc =>
      obtain ⟨b, br, rfl, rfl, rfl⟩ := h.stack_cons hs
      exact ⟨_, ps, h.series hid hc, hp⟩
  | wait n hid hc => exact ⟨bs, _, h.wait hid hc, by simp [hp]⟩
  | join w newer older rest hs =>
      obtain ⟨bn, br, rfl, rfl, hr⟩ := h.stack_cons hs
      obtain ⟨bo, br, rfl, rfl, rfl⟩ := List.map_eq_cons_iff.mp hr.symm
      exact ⟨_, ps, h.join w, hp⟩
  | tap n hid ht => exact ⟨bs, ps, h.tap, hp⟩

/-- A pending branch that joins the latest branch in parallel makes it the first branch of a
new parallel block. -/
theorem joinPending {b p : Branch} {br ps : List Branch} (h : Holds a (b :: br) (p :: ps)) :
    Holds { a with
        stack := { id := nodeId (a.count + 1), body := .block .parallel [b.root.id, p.root.id] } ::
          br.map Branch.root,
        nodes := a.nodes ++ [{ id := nodeId (a.count + 1), body := .block .parallel [b.root.id, p.root.id] }],
        count := a.count + 1 }
      (.join { id := nodeId (a.count + 1), body := .block .parallel [b.root.id, p.root.id] }
        .parallel b p :: br) ps := by
  have hwfb := h.wf b (by simp)
  have hwfp := h.wf p (by simp)
  obtain ⟨i, hi, hbi⟩ := h.root_number (b := b) (by simp)
  obtain ⟨j, hj, hpj⟩ := h.root_number (b := p) (by simp)
  refine ⟨rfl, ?_, ?_, ?_⟩
  · intro b' hb'
    rcases List.mem_cons.mp hb' with rfl | hb'
    · exact ⟨⟨rfl, hwfb.1, hwfp.1⟩,
        ⟨⟨i, j, a.count + 1, hbi, hpj, rfl, by omega, by omega⟩, hwfb.2, hwfp.2⟩⟩
    · exact h.wf b' (by simp at hb' ⊢; tauto)
  · refine perm_grow h.perm (List.perm_iff_count.mpr fun x => ?_)
    simp only [List.cons_append, List.flatMap_cons, List.flatMap_append,
      Branch.nodes_join, List.count_cons, List.count_append, List.count_nil]
    omega
  · exact h.numbered_append _ [a.count + 1] rfl (by simp) (by simp) (by simp) (by simp)

/-- Joining the pending branches keeps the forest and leaves none pending; read from the oldest
branch on, the leaves are those of the branches and then those of the pending branches, the
latest first. -/
theorem foldPending (h : Holds a bs ps) :
    ∃ bs', Holds (a.foldPending (ps.map Branch.root)) bs' [] ∧
      (a.foldPending (ps.map Branch.root)).pendingOr = a.pendingOr ∧
      bs'.reverse.flatMap Branch.leaves =
        bs.reverse.flatMap Branch.leaves ++ ps.flatMap Branch.leaves := by
  induction ps generalizing a bs with
  | nil => exact ⟨bs, h, rfl, by simp⟩
  | cons p ps ih =>
      rw [List.map_cons, Assembler.foldPending]
      split
      · -- on an empty stack the pending branch becomes the only branch
        rename_i hs
        obtain rfl : bs = [] := List.map_eq_nil_iff.mp (h.stack_eq ▸ hs)
        have h' : Holds { a with stack := [p.root] } [p] ps :=
          ⟨rfl, fun b hb => h.wf b (by simpa using hb), by simpa using h.perm, h.numbered⟩
        obtain ⟨bs', h'', hp, hl⟩ := ih h'
        exact ⟨bs', h'', hp, by simp [hl]⟩
      · -- otherwise it joins the latest branch in parallel
        rename_i top rest hs
        obtain ⟨b, br, rfl, rfl, rfl⟩ := h.stack_cons hs
        obtain ⟨bs', h'', hp, hl⟩ := ih h.joinPending
        exact ⟨bs', h'', hp, by simp [hl]⟩

end Holds

/-- The forest the assembler keeps, read off its arena. The branches on the stack and the
pending ones resolve in the arena, and so does every child a block names; every block joins
two children numbered below it; the trees under the branches list the arena between them,
every node once, and no block names a branch as its child; the arena's ids are distinct, and
are `node_k` for increasing `k` up to the counter. -/
structure Forest (a : Assembler) : Prop where
  roots_resolve : ∀ x ∈ a.stack ++ a.pendingOr, lookupNode a.nodes x.id = some x
  children_resolve : ∀ m ∈ a.nodes, ∀ c ∈ m.body.children,
    ∃ k ∈ a.nodes, lookupNode a.nodes c = some k
  binary : ∀ m ∈ a.nodes, m.body.isBlock = true →
    ∃ w i j k, m.body = .block w [nodeId i, nodeId j] ∧ m.id = nodeId k ∧ i < k ∧ j < k
  partition : ∃ trees : List (List Node),
    List.Forall₂ (fun x t => preorder a.nodes x = .ok t) (a.stack ++ a.pendingOr) trees ∧
      trees.flatten.Perm a.nodes
  roots_free : ∀ x ∈ a.stack ++ a.pendingOr, ∀ m ∈ a.nodes, x.id ∉ m.body.children
  ids_nodup : (a.nodes.map (·.id)).Nodup
  numbered : ∃ ks : List Nat, a.nodes.map (·.id) = ks.map nodeId ∧ ks.Pairwise (· < ·) ∧
    ∀ k ∈ ks, k ≤ a.count

namespace Holds

variable {a : Assembler} {bs ps : List Branch}

theorem ids_nodup (h : Holds a bs ps) : (a.nodes.map (·.id)).Nodup := by
  obtain ⟨ks, hks, hsort, -⟩ := h.numbered
  rw [hks]
  exact List.Nodup.map nodeId_injective (hsort.imp Nat.ne_of_lt)

theorem forest_ids_nodup (h : Holds a bs ps) :
    ((bs ++ ps).flatMap fun b => b.nodes.map (·.id)).Nodup := by
  have := (h.perm.map (·.id)).nodup_iff.mpr h.ids_nodup
  simpa [List.map_flatMap] using this

theorem branch_ids_nodup (h : Holds a bs ps) {b : Branch} (hb : b ∈ bs ++ ps) :
    (b.nodes.map (·.id)).Nodup :=
  (List.nodup_flatMap.mp h.forest_ids_nodup).1 b hb

/-- Distinct branches of the forest share no id. -/
theorem disjoint_ids (h : Holds a bs ps) {b b' : Branch} (hb : b ∈ bs ++ ps)
    (hb' : b' ∈ bs ++ ps) (hne : b ≠ b') :
    List.Disjoint (b.nodes.map (·.id)) (b'.nodes.map (·.id)) := by
  have : Std.Symm (Function.onFun List.Disjoint fun b : Branch => b.nodes.map (·.id)) :=
    ⟨fun _ _ h => List.disjoint_symm h⟩
  exact (List.nodup_flatMap.mp h.forest_ids_nodup).2.forall hb hb' hne

theorem roots_eq (h : Holds a bs ps) (hp : a.pendingOr = ps.map Branch.root) :
    a.stack ++ a.pendingOr = (bs ++ ps).map Branch.root := by
  rw [h.stack_eq, hp, List.map_append]

/-- The forest of branches, read off the arena. -/
theorem forest (h : Holds a bs ps) (hp : a.pendingOr = ps.map Branch.root) : Forest a := by
  have hroots := h.roots_eq hp
  refine ⟨?_, ?_, ?_, ?_, ?_, h.ids_nodup, h.numbered⟩
  · intro x hx
    obtain ⟨b, hb, rfl⟩ := List.mem_map.mp (hroots ▸ hx)
    exact lookupNode_of_mem h.ids_nodup (h.mem_of_mem_branch hb b.root_mem_nodes)
  · intro m hm c hc
    obtain ⟨b, hb, hmb⟩ := List.mem_flatMap.mp (h.perm.symm.subset hm)
    obtain ⟨k, hk, rfl⟩ := List.mem_map.mp (List.mem_of_mem_tail
      (List.map_tail ▸ Branch.child_mem_tail (h.wf b hb).1 hmb hc))
    have hka := h.mem_of_mem_branch hb hk
    exact ⟨k, hka, lookupNode_of_mem h.ids_nodup hka⟩
  · intro m hm hblock
    obtain ⟨b, hb, hmb⟩ := List.mem_flatMap.mp (h.perm.symm.subset hm)
    exact Branch.block_numbered (h.wf b hb).1 (h.wf b hb).2 hmb hblock
  · refine ⟨(bs ++ ps).map Branch.nodes, ?_, ?_⟩
    · rw [hroots, List.forall₂_map_left_iff, List.forall₂_map_right_iff, List.forall₂_same]
      intro b hb
      exact preorder_root (h.wf b hb).1 h.ids_nodup (h.branch_ids_nodup hb)
        fun m hm => h.mem_of_mem_branch hb hm
    · rw [← List.flatMap_def]
      exact h.perm
  · intro x hx m hm hc
    obtain ⟨b, hb, rfl⟩ := List.mem_map.mp (hroots ▸ hx)
    obtain ⟨b', hb', hmb⟩ := List.mem_flatMap.mp (h.perm.symm.subset hm)
    have htail := List.map_tail ▸ Branch.child_mem_tail (h.wf b' hb').1 hmb hc
    by_cases he : b = b'
    · subst he
      exact Branch.root_not_child (h.wf b hb).1 (h.branch_ids_nodup hb) hmb hc
    · exact h.disjoint_ids hb hb' he (List.mem_map_of_mem b.root_mem_nodes)
        (List.mem_of_mem_tail htail)

end Holds

/-- The state is a forest of numbered branches, the pending ones in order. -/
def Built (a : Assembler) : Prop := ∃ bs ps, Holds a bs ps ∧ a.pendingOr = ps.map Branch.root

theorem holds_reset (a : Assembler) : Holds a.reset [] [] :=
  ⟨rfl, by simp, by simp [reset], ⟨[], by simp [reset], by simp, by simp⟩⟩

theorem built_reset (a : Assembler) : a.reset.Built := ⟨[], [], holds_reset a, rfl⟩

/-- A row that builds something gives its node the next id above the counter. -/
theorem Move.id_fresh {a a' : Assembler} {n : Node} (hm : Move a n a') :
    ∃ k, n.id = nodeId k ∧ a.count < k ∧ k ≤ a'.count := by
  cases hm with
  | push n hid _ | wait n hid _ | tap n hid _ => exact ⟨a.count + 1, hid, by omega, by simp⟩
  | series => exact ⟨a.count + 2, rfl, by omega, by simp⟩
  | join => exact ⟨a.count + 1, rfl, by omega, by simp⟩

theorem Move.count_le {a a' : Assembler} {n : Node} (hm : Move a n a') : a.count ≤ a'.count := by
  obtain ⟨k, -, hlt, hle⟩ := hm.id_fresh
  omega

theorem count_le_foldPending (a : Assembler) (os : List Node) :
    a.count ≤ (a.foldPending os).count := by
  induction os generalizing a with
  | nil => exact Nat.le_refl _
  | cons o os ih =>
      rw [foldPending]
      split
      · exact ih { a with stack := [o] }
      · rename_i top rest _
        exact Nat.le_trans (Nat.le_succ a.count)
          (ih { (a.join .parallel top o).2 with stack := (a.join .parallel top o).1 :: rest })

namespace Built

variable {a : Assembler}

theorem step (h : a.Built) {row : Row} {n : Node} {a' : Assembler}
    (hs : a.step row = some (n, a')) : a'.Built := by
  obtain ⟨bs, ps, h, hp⟩ := h
  exact h.of_move hp (step_move hs)

theorem result (h : a.Built) : a.result.2.Built := by
  obtain ⟨bs, ps, h, hp⟩ := h
  have h0 : Holds { a with pendingOr := [] } bs ps := ⟨h.stack_eq, h.wf, h.perm, h.numbered⟩
  obtain ⟨bs', h', hp', -⟩ := h0.foldPending
  refine ⟨bs', [], ?_, ?_⟩
  · simpa only [Assembler.result, hp] using h'
  · simpa only [Assembler.result, hp, List.map_nil] using hp'

theorem forest (h : a.Built) : a.Forest := by
  obtain ⟨bs, ps, h, hp⟩ := h
  exact h.forest hp

end Built

/-- A call on the assembler: a row, or finishing the rung, as reading its result or its
stack does. -/
inductive Call where
  | row (r : Row)
  | finish

/-- The state after a call; a row that builds nothing leaves it as it was. -/
def perform (a : Assembler) : Call → Assembler
  | .row r =>
      match a.step r with
      | some (_, a') => a'
      | none => a
  | .finish => a.result.2

/-- The state after a sequence of calls. -/
def run (a : Assembler) (calls : List Call) : Assembler := calls.foldl perform a

theorem Built.run {a : Assembler} (h : a.Built) (calls : List Call) : (a.run calls).Built := by
  induction calls generalizing a with
  | nil => exact h
  | cons c calls ih =>
      apply ih
      cases c with
      | row r =>
          cases hs : a.step r with
          | none => simpa only [perform, hs] using h
          | some p => simpa only [perform, hs] using h.step hs
      | finish => exact h.result

theorem count_le_run (a : Assembler) (calls : List Call) : a.count ≤ (a.run calls).count := by
  induction calls generalizing a with
  | nil => exact Nat.le_refl _
  | cons c calls ih =>
      refine Nat.le_trans ?_ (ih (a.perform c))
      cases c with
      | row r =>
          cases hs : a.step r with
          | none => simp only [perform, hs, Nat.le_refl]
          | some p => simpa only [perform, hs] using (step_move hs).count_le
      | finish => exact count_le_foldPending { a with pendingOr := [] } a.pendingOr

/-- After a reset, whatever rows are applied and however often the rung is finished, the
assembler keeps a forest of numbered branches over its arena; the counter never goes back;
and the next row that builds a node, a tap included, gives it an id above every id so far. -/
theorem keeps_forest (a : Assembler) (calls : List Call) :
    (a.reset.run calls).Forest ∧ a.count ≤ (a.reset.run calls).count ∧
      ∀ row n a', (a.reset.run calls).step row = some (n, a') →
        ∃ k, n.id = nodeId k ∧ (a.reset.run calls).count < k ∧ k ≤ a'.count :=
  ⟨((built_reset a).run calls).forest, count_le_run a.reset calls,
    fun _ _ _ hs => (step_move hs).id_fresh⟩

end Assembler

end RelayLadder
