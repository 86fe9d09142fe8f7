import RelayLadder.Rung.Tree
import Mathlib.Data.List.Nodup
import Mathlib.Data.List.Perm.Subperm

/-! # Branches: the trees the assembler builds

A branch is a rung tree as the assembler builds it: a condition, or a block that joins two
branches. The block node names the roots of its two branches as its children, so a branch is
the arena view of one stack item made explicit.

In an arena where every node of a branch resolves to itself, walking the tree from the
branch's root lists the branch's nodes in pre-order, and the depth bound of the walk is never
reached.
-/

namespace RelayLadder

/-! ## Arenas with distinct ids -/

theorem lookupNode_eq_find? (nodes : List Node) (id : String) :
    lookupNode nodes id = nodes.reverse.find? (·.id == id) := by
  suffices ∀ found, nodes.foldl (fun found n => if n.id == id then some n else found) found =
      (nodes.reverse.find? (·.id == id)).or found by
    simpa [lookupNode] using this none
  induction nodes with
  | nil => simp
  | cons n rest ih =>
      intro found
      rw [List.foldl_cons, ih, List.reverse_cons, List.find?_append]
      by_cases h : n.id = id <;> simp [h]

/-- In an arena whose ids are distinct, every node is what its id names. -/
theorem lookupNode_of_mem {nodes : List Node} {m : Node} (hnd : (nodes.map (·.id)).Nodup)
    (hm : m ∈ nodes) : lookupNode nodes m.id = some m := by
  rw [lookupNode_eq_find?]
  induction nodes with
  | nil => simp at hm
  | cons n rest ih =>
      rw [List.map_cons, List.nodup_cons] at hnd
      rw [List.reverse_cons, List.find?_append]
      rcases List.mem_cons.mp hm with rfl | hm
      · have : rest.reverse.find? (·.id == m.id) = none := by
          simp only [List.find?_eq_none, List.mem_reverse, beq_iff_eq]
          exact fun x hx he => hnd.1 (he ▸ List.mem_map_of_mem hx)
        simp [this]
      · simp [ih hnd.2 hm]

/-! ## Branches -/

/-- A tree of the logic path as the assembler builds it: a condition, or a block node that
joins two branches in series or in parallel. -/
inductive Branch where
  | leaf (n : Node)
  | join (n : Node) (w : Wiring) (first second : Branch)
  deriving DecidableEq, Repr

namespace Branch

/-- The node at the root of a branch. -/
def root : Branch → Node
  | leaf n | join n _ _ _ => n

/-- The nodes of a branch in pre-order: the root, then the first branch, then the second. -/
def nodes : Branch → List Node
  | leaf n => [n]
  | join n _ first second => n :: (first.nodes ++ second.nodes)

/-- A branch is well formed when its leaves are conditions and each block node is a block of
its wiring that names the roots of its two branches as its children, in order. -/
def WF : Branch → Prop
  | leaf n => n.body.isCondition = true
  | join n w first second =>
      n.body = .block w [first.root.id, second.root.id] ∧ first.WF ∧ second.WF

/-- The number of nodes on the longest path from the root down. -/
def depth : Branch → Nat
  | leaf _ => 1
  | join _ _ first second => max first.depth second.depth + 1

@[simp] theorem root_leaf (n : Node) : (leaf n).root = n := rfl
@[simp] theorem root_join (n : Node) (w : Wiring) (f s : Branch) : (join n w f s).root = n := rfl
@[simp] theorem nodes_leaf (n : Node) : (leaf n).nodes = [n] := rfl
@[simp] theorem nodes_join (n : Node) (w : Wiring) (f s : Branch) :
    (join n w f s).nodes = n :: (f.nodes ++ s.nodes) := rfl
@[simp] theorem wf_leaf (n : Node) : (leaf n).WF ↔ n.body.isCondition = true := Iff.rfl
@[simp] theorem wf_join (n : Node) (w : Wiring) (f s : Branch) :
    (join n w f s).WF ↔ n.body = .block w [f.root.id, s.root.id] ∧ f.WF ∧ s.WF :=
  Iff.rfl

/-- The leaves of a branch: left to right in series, top to bottom in parallel. -/
def leaves : Branch → List Node
  | leaf n => [n]
  | join _ _ first second => first.leaves ++ second.leaves

@[simp] theorem leaves_leaf (n : Node) : (leaf n).leaves = [n] := rfl
@[simp] theorem leaves_join (n : Node) (w : Wiring) (f s : Branch) :
    (join n w f s).leaves = f.leaves ++ s.leaves := rfl

theorem nodes_eq_root_cons (b : Branch) : ∃ rest, b.nodes = b.root :: rest := by
  cases b <;> simp

theorem root_mem_nodes (b : Branch) : b.root ∈ b.nodes := by
  obtain ⟨rest, h⟩ := b.nodes_eq_root_cons
  simp [h]

theorem depth_le_length (b : Branch) : b.depth ≤ b.nodes.length := by
  induction b with
  | leaf n => simp [depth]
  | join n w f s ihf ihs =>
      simp only [depth, nodes_join, List.length_cons, List.length_append]
      omega

/-- A condition names no children. -/
theorem children_of_isCondition {b : NodeBody} (h : b.isCondition = true) : b.children = [] := by
  cases b <;> simp_all [NodeBody.isCondition, NodeBody.children]

/-- Every child that a node of a well-formed branch names is a node of the branch below its
root. -/
theorem child_mem_tail {b : Branch} (hwf : b.WF) {m : Node} (hm : m ∈ b.nodes) {c : String}
    (hc : c ∈ m.body.children) : c ∈ b.nodes.tail.map (·.id) := by
  induction b with
  | leaf n =>
      simp only [nodes_leaf, List.mem_singleton] at hm
      subst hm
      simp [children_of_isCondition hwf] at hc
  | join n w f s ihf ihs =>
      obtain ⟨hw, hf, hs⟩ := hwf
      simp only [nodes_join, List.mem_cons, List.mem_append] at hm
      simp only [nodes_join, List.tail_cons, List.map_append, List.mem_append]
      rcases hm with rfl | hm | hm
      · simp only [hw, NodeBody.children, List.mem_pair] at hc
        rcases hc with rfl | rfl
        · exact .inl (List.mem_map_of_mem f.root_mem_nodes)
        · exact .inr (List.mem_map_of_mem s.root_mem_nodes)
      · exact .inl (List.mem_of_mem_tail (List.map_tail ▸ ihf hf hm))
      · exact .inr (List.mem_of_mem_tail (List.map_tail ▸ ihs hs hm))

/-- In a well-formed branch without repeated ids, no node names the root as its child. -/
theorem root_not_child {b : Branch} (hwf : b.WF) (hnd : (b.nodes.map (·.id)).Nodup) {m : Node}
    (hm : m ∈ b.nodes) : b.root.id ∉ m.body.children := by
  intro hc
  obtain ⟨rest, hb⟩ := b.nodes_eq_root_cons
  have := child_mem_tail hwf hm hc
  rw [hb, List.map_cons, List.nodup_cons] at hnd
  rw [hb, List.tail_cons] at this
  exact hnd.1 this

end Branch

/-! ## Walking a branch in an arena -/

/-- Every node of the branch is what its id names in the arena. -/
def Branch.Resolves (arena : List Node) (b : Branch) : Prop :=
  ∀ m ∈ b.nodes, lookupNode arena m.id = some m

theorem resolveChildren_of_children_eq {arena : List Node} {n : Node} {kids : List Node}
    (h : n.body.children = kids.map (·.id))
    (hk : ∀ k ∈ kids, lookupNode arena k.id = some k) :
    resolveChildren arena n = .ok kids := by
  have hfind : (n.body.children.reverse.find? fun i => (lookupNode arena i).isNone) = none := by
    simp only [h, List.find?_eq_none, List.mem_reverse, List.mem_map]
    rintro _ ⟨k, hk', rfl⟩
    simp [hk k hk']
  have hkeep : kids.filterMap (lookupNode arena ∘ (·.id)) = kids := by
    rw [List.filterMap_congr fun k hk' =>
      (by simp [hk k hk'] : (lookupNode arena ∘ (·.id)) k = some k), List.filterMap_some]
  simp only [resolveChildren, hfind]
  rw [h, List.filterMap_map, hkeep]

/-- Walking a well-formed branch whose nodes resolve, to a depth no less than its own, lists its
nodes in pre-order. -/
theorem preorderUpTo_root {arena : List Node} {b : Branch} (hwf : b.WF) (hres : b.Resolves arena)
    {d : Nat} (hd : b.depth ≤ d) : preorderUpTo arena d b.root = .ok b.nodes := by
  induction b generalizing d with
  | leaf n =>
      obtain ⟨d, rfl⟩ : ∃ d', d = d' + 1 := ⟨d - 1, by simp [Branch.depth] at hd; omega⟩
      have hkids : resolveChildren arena n = .ok [] :=
        resolveChildren_of_children_eq (by simpa using Branch.children_of_isCondition hwf) (by simp)
      simp [preorderUpTo, hkids, bind, Except.bind, pure, Except.pure]
  | join n w f s ihf ihs =>
      obtain ⟨hw, hf, hs⟩ := hwf
      obtain ⟨d, rfl⟩ : ∃ d', d = d' + 1 := ⟨d - 1, by simp [Branch.depth] at hd; omega⟩
      have hdf : f.depth ≤ d := by simp [Branch.depth] at hd; omega
      have hds : s.depth ≤ d := by simp [Branch.depth] at hd; omega
      have hresf : f.Resolves arena := fun m hm => hres m (by simp [hm])
      have hress : s.Resolves arena := fun m hm => hres m (by simp [hm])
      have hkids : resolveChildren arena n = .ok [f.root, s.root] := by
        apply resolveChildren_of_children_eq (by simp [NodeBody.children, hw])
        intro k hk
        rcases List.mem_pair.mp hk with rfl | rfl
        · exact hresf _ f.root_mem_nodes
        · exact hress _ s.root_mem_nodes
      simp [preorderUpTo, hkids, ihf hf hresf hdf, ihs hs hress hds, bind, Except.bind, pure,
        Except.pure]

/-- In an arena with distinct ids that holds a branch without repeated ids, walking from the
branch's root lists the branch. -/
theorem preorder_root {arena : List Node} {b : Branch} (hwf : b.WF)
    (hnd : (arena.map (·.id)).Nodup) (hb : (b.nodes.map (·.id)).Nodup)
    (hsub : ∀ m ∈ b.nodes, m ∈ arena) : preorder arena b.root = .ok b.nodes := by
  have hlen : b.nodes.length ≤ arena.length := (List.Nodup.subperm (List.Nodup.of_map _ hb) hsub).length_le
  apply preorderUpTo_root hwf (fun m hm => lookupNode_of_mem hnd (hsub m hm))
  have := b.depth_le_length
  simp only [arenaDepth]
  omega

end RelayLadder
