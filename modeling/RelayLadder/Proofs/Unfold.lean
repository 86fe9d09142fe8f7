import RelayLadder.Proofs.Shape
import RelayLadder.Listing.Writer

/-! # The trees a network holds

A network's blocks name their children by id, and nothing in a network's rules keeps those
references a tree: two blocks may name one child, and a block may reach itself. Following child
ids from a node unfolds the references into trees (`Unfolds`); the unfolding is finite exactly
when no cycle is reached, and then it may still hold a node twice.

The walk, the layout and the writer of a network follow child ids down to a depth bound, one
more than the number of nodes. The unfolding is unique, so no node lies in the trees unfolded
from its own children, and a path down a finite unfolding repeats no node: its height is within
the bound (`Unfolds.height_lt_arenaDepth`), even where it holds a shared node twice. Each of
them then gives what the unbounded walk would: the walk lists the tree in pre-order and any
deeper walk agrees (`Unfolds.preorderUpTo_eq`, `Unfolds.loadLines_eq`). A network that shares a
child, or holds a cycle, still passes the network's rules.
-/

namespace RelayLadder

/-- Trees in first-child, next-sibling form: a node with the trees under its children, then the
trees that follow it. A block may have any number of children. -/
inductive Trees where
  | nil
  | cons (n : Node) (kids : Trees) (rest : Trees)
  deriving DecidableEq, Repr

namespace Trees

/-- The nodes of the trees in pre-order. -/
def nodes : Trees → List Node
  | nil => []
  | cons n kids rest => n :: (kids.nodes ++ rest.nodes)

/-- The number of nodes on the longest path down from a root. -/
def height : Trees → Nat
  | nil => 0
  | cons _ kids rest => max (kids.height + 1) rest.height

@[simp] theorem nodes_nil : nil.nodes = [] := rfl
@[simp] theorem nodes_cons (n : Node) (kids rest : Trees) :
    (cons n kids rest).nodes = n :: (kids.nodes ++ rest.nodes) := rfl
@[simp] theorem height_nil : nil.height = 0 := rfl
@[simp] theorem height_cons (n : Node) (kids rest : Trees) :
    (cons n kids rest).height = max (kids.height + 1) rest.height := rfl

/-- A depth no less than the height of trees with a first node is one more than a depth no less
than the height of the trees under that node, and no less than the height of those after it. -/
theorem height_cons_le {n : Node} {kids rest : Trees} {d : Nat} (hd : (cons n kids rest).height ≤ d) :
    ∃ d', d = d' + 1 ∧ kids.height ≤ d' ∧ rest.height ≤ d' + 1 := by
  simp only [height_cons, Nat.max_le] at hd
  exact ⟨d - 1, by omega, by omega, by omega⟩

/-- One child of a block of a wiring, after the lines `acc.1`, which have loaded a branch when
`acc.2` holds, given the lines `own` that load the child's tree as one branch: until a branch is
loaded the child is loaded; after that a condition of a series block is joined with `AND`, and
any other child is loaded as a branch of its own and joined as the block says. -/
def childLines (w : Wiring) (acc : List ListingLine × Bool) (c : Node)
    (own : Except ListingError (List ListingLine × Bool)) :
    Except ListingError (List ListingLine × Bool) :=
  if !acc.2 then do
    let (ls, p) ← own
    pure (acc.1 ++ ls, p)
  else if w == .series && !c.body.isBlock then do
    let l ← conditionLine "AND" c
    pure (acc.1 ++ [l], true)
  else do
    let (ls, p) ← own
    pure (acc.1 ++ ls ++ (if p then [joinLine w] else []), true)

/-- The lines that load the tree under a node as one branch: a leaf's `LOAD` line, or for a
block the lines `kids` writes for its children under the block's wiring. -/
def ownLines (c : Node) (kids : Wiring → Except ListingError (List ListingLine × Bool)) :
    Except ListingError (List ListingLine × Bool) :=
  match c.body with
  | .block cw _ => kids cw
  | _ => (fun l => ([l], true)) <$> conditionLine "LOAD" c

/-- The lines that load the trees one after the other as the children of a block of a wiring,
after the lines `acc.1`. -/
def loadAfter (w : Wiring) :
    List ListingLine × Bool → Trees → Except ListingError (List ListingLine × Bool)
  | acc, nil => .ok acc
  | acc, cons c kids rest =>
    childLines w acc c (ownLines c fun cw => loadAfter cw ([], false) kids) >>=
      fun acc' => loadAfter w acc' rest

end Trees

/-- `Unfolds nodes ns t`: `t` is the trees under the nodes `ns`, each block's child ids resolved
through the arena `nodes`. Following child ids into a cycle unfolds into no trees at all. -/
inductive Unfolds (nodes : List Node) : List Node → Trees → Prop where
  | nil : Unfolds nodes [] .nil
  | cons {n : Node} {ns : List Node} {kids rest : Trees} :
      Unfolds nodes (n.body.children.filterMap (lookupNode nodes)) kids →
      Unfolds nodes ns rest → Unfolds nodes (n :: ns) (.cons n kids rest)

/-- Every child id of every node of an arena names a node of it. -/
def Resolved (nodes : List Node) : Prop :=
  ∀ m ∈ nodes, ∀ c ∈ m.body.children, (lookupNode nodes c).isSome

/-- Every child id of a node names a node of an arena. -/
def ResolvesIn (nodes : List Node) (m : Node) : Prop :=
  ∀ c ∈ m.body.children, (lookupNode nodes c).isSome

instance (nodes : List Node) (m : Node) : Decidable (ResolvesIn nodes m) :=
  inferInstanceAs (Decidable (∀ c ∈ m.body.children, _))

theorem lookupNode_mem {nodes : List Node} {i : String} {m : Node} (h : lookupNode nodes i = some m) :
    m ∈ nodes := by
  rw [lookupNode_eq_find?] at h
  exact List.mem_reverse.mp (List.mem_of_find?_eq_some h)

theorem resolveChildren_of_resolvesIn {nodes : List Node} {n : Node} (hres : ResolvesIn nodes n) :
    resolveChildren nodes n = .ok (n.body.children.filterMap (lookupNode nodes)) := by
  have hfind : (n.body.children.reverse.find? fun i => (lookupNode nodes i).isNone) = none := by
    simp only [List.find?_eq_none, List.mem_reverse]
    intro i hi
    simpa [Option.isNone_iff_eq_none, Option.isSome_iff_ne_none] using hres i hi
  simp [resolveChildren, hfind]

namespace Unfolds

variable {nodes : List Node}

/-- The children of a node, resolved through an arena, are nodes of the arena. -/
theorem mem_of_mem_children {n k : Node} (hk : k ∈ n.body.children.filterMap (lookupNode nodes)) :
    k ∈ nodes := by
  obtain ⟨i, -, hi⟩ := List.mem_filterMap.mp hk
  exact lookupNode_mem hi

/-- The nodes of the trees under nodes of the arena are nodes of the arena. -/
theorem mem {ns : List Node} {t : Trees} (h : Unfolds nodes ns t) (hns : ∀ n ∈ ns, n ∈ nodes) :
    ∀ m ∈ t.nodes, m ∈ nodes := by
  induction h with
  | nil => simp
  | cons hk hr ihk ihr =>
    rename_i n ns kids rest
    have hn : n ∈ nodes := hns n (by simp)
    intro m hm
    simp only [Trees.nodes_cons, List.mem_cons, List.mem_append] at hm
    rcases hm with rfl | hm | hm
    · exact hn
    · exact ihk (fun k hk => mem_of_mem_children hk) m hm
    · exact ihr (fun k hk => hns k (by simp [hk])) m hm

/-- Walking each of the nodes down to a depth no less than the height of their trees lists the
trees in pre-order, when every node of the trees names only nodes of the arena. -/
theorem mapM_preorderUpTo_of_resolvesIn {ns : List Node} {t : Trees} (h : Unfolds nodes ns t)
    (hres : ∀ m ∈ t.nodes, ResolvesIn nodes m) {d : Nat} (hd : t.height ≤ d) :
    ∃ L, ns.mapM (preorderUpTo nodes d) = .ok L ∧ L.flatten = t.nodes := by
  induction h generalizing d with
  | nil => exact ⟨[], rfl, rfl⟩
  | cons hk hr ihk ihr =>
    rename_i n ns kids rest
    obtain ⟨d, rfl, hdk, hdr⟩ := Trees.height_cons_le hd
    obtain ⟨Lk, hLk, hfk⟩ := ihk (fun m hm => hres m (by simp [hm])) hdk
    obtain ⟨Lr, hLr, hfr⟩ := ihr (fun m hm => hres m (by simp [hm])) hdr
    have hpn : preorderUpTo nodes (d + 1) n = .ok (n :: kids.nodes) := by
      simp [preorderUpTo, resolveChildren_of_resolvesIn (hres n (by simp)), hLk, hfk, bind,
        Except.bind, pure, Except.pure]
    refine ⟨(n :: kids.nodes) :: Lr, ?_, by simp [hfr]⟩
    simp [List.mapM_cons, hpn, hLr, bind, Except.bind, pure, Except.pure]

/-- Walking one node is walking the list that holds it. -/
theorem mapM_preorderUpTo_singleton (d : Nat) (x : Node) :
    [x].mapM (preorderUpTo nodes d) = (preorderUpTo nodes d x).map fun ns => [ns] := by
  cases h : preorderUpTo nodes d x <;>
    simp [List.mapM_cons, h, bind, Except.bind, pure, Except.pure, Except.map]

/-- Walking a node down to a depth no less than the height of its tree lists the tree in
pre-order, when every node of the tree names only nodes of the arena. -/
theorem preorderUpTo_eq_of_resolvesIn {x : Node} {t : Trees} (h : Unfolds nodes [x] t)
    (hres : ∀ m ∈ t.nodes, ResolvesIn nodes m) {d : Nat} (hd : t.height ≤ d) :
    preorderUpTo nodes d x = .ok t.nodes := by
  obtain ⟨L, hL, hf⟩ := h.mapM_preorderUpTo_of_resolvesIn hres hd
  rw [mapM_preorderUpTo_singleton] at hL
  cases hx : preorderUpTo nodes d x with
  | error e => simp [hx, Except.map] at hL
  | ok ns =>
    simp only [hx, Except.map, Except.ok.injEq] at hL
    subst hL
    simpa using hf

/-- Walking a node down to a depth no less than the height of its tree lists the tree in
pre-order. -/
theorem preorderUpTo_eq {x : Node} {t : Trees} (h : Unfolds nodes [x] t) (hres : Resolved nodes)
    (hx : x ∈ nodes) {d : Nat} (hd : t.height ≤ d) : preorderUpTo nodes d x = .ok t.nodes :=
  h.preorderUpTo_eq_of_resolvesIn (fun m hm => hres m (h.mem (by simpa using hx) m hm)) hd

/-- The writer's step over one child of a block is `childLines` with the writer's walk from the
child as its own lines. -/
theorem loadLines_succ_block (d : Nat) {n : Node} {w : Wiring} {ids : List String}
    (hb : n.body = .block w ids) :
    loadLines nodes (d + 1) n = (ids.filterMap (lookupNode nodes)).foldlM
      (fun acc c => Trees.childLines w acc c (loadLines nodes d c)) ([], false) := by
  rw [loadLines, hb]
  rfl

theorem loadLines_succ_leaf (d : Nat) {n : Node} (hb : n.body.isBlock = false) :
    loadLines nodes (d + 1) n = (fun l => ([l], true)) <$> conditionLine "LOAD" n := by
  rw [loadLines]
  cases h : n.body with
  | block => simp [h, NodeBody.isBlock] at hb
  | contact | coil | timer | counter | comparison | math =>
    cases conditionLine "LOAD" n <;> rfl

/-- The writer's walk over the children of a block, down to a depth no less than the height of
their trees, writes what loading the trees writes. -/
theorem foldlM_loadLines {cs : List Node} {t : Trees} (h : Unfolds nodes cs t) {d : Nat}
    (hd : t.height ≤ d) (w : Wiring) (acc : List ListingLine × Bool) :
    cs.foldlM (fun acc c => Trees.childLines w acc c (loadLines nodes d c)) acc =
      t.loadAfter w acc := by
  induction h generalizing d w acc with
  | nil => rfl
  | cons hk hr ihk ihr =>
    rename_i c cs kids rest
    obtain ⟨d', rfl, hdk, hdr⟩ := Trees.height_cons_le hd
    -- the tree under `c` is loaded by the writer's walk from `c`, one level down
    have hown : loadLines nodes (d' + 1) c = Trees.ownLines c fun cw => kids.loadAfter cw ([], false) := by
      cases hb : c.body with
      | block cw ids =>
        have hids : c.body.children = ids := by simp [hb, NodeBody.children]
        have hkids := ihk hdk cw ([], false)
        rw [hids] at hkids
        rw [loadLines_succ_block d' hb, hkids, Trees.ownLines, hb]
      | contact | coil | timer | counter | comparison | math =>
        rw [Trees.ownLines, hb]
        exact loadLines_succ_leaf d' (by simp [hb, NodeBody.isBlock])
    rw [List.foldlM_cons, Trees.loadAfter, hown]
    congr 1
    funext acc'
    exact ihr hdr w acc'

/-- The writer's walk from a node, down to a depth no less than the height of its tree, writes
what loading the tree writes. -/
theorem loadLines_eq {x : Node} {t : Trees} (h : Unfolds nodes [x] t) {d : Nat}
    (hd : t.height ≤ d) : loadLines nodes d x = t.loadAfter .series ([], false) := by
  cases h with
  | cons hk hr =>
    rename_i kids rest
    cases hr
    obtain ⟨d', rfl, hkd, -⟩ := Trees.height_cons_le hd
    simp only [Trees.loadAfter, Trees.childLines, Trees.ownLines, Bool.not_false, ite_true]
    cases hb : x.body with
    | block cw ids =>
      have hids : x.body.children = ids := by simp [hb, NodeBody.children]
      have hfold := foldlM_loadLines hk hkd cw ([], false)
      rw [hids] at hfold
      rw [loadLines_succ_block d' hb, hfold]
      rcases hl : kids.loadAfter cw ([], false) with e | ⟨ls, p⟩ <;>
        simp [hl, bind, Except.bind, pure, Except.pure]
    | contact | coil | timer | counter | comparison | math =>
      rw [loadLines_succ_leaf d' (by simp [hb, NodeBody.isBlock])]
      rcases conditionLine "LOAD" x with e | l <;>
        simp [bind, Except.bind, pure, Except.pure, Functor.map, Except.map]

/-- Following child ids from nodes unfolds into one trees at most. -/
theorem unique {ns : List Node} {t t' : Trees} (h : Unfolds nodes ns t) (h' : Unfolds nodes ns t') :
    t = t' := by
  induction h generalizing t' with
  | nil => cases h'; rfl
  | cons hk hr ihk ihr =>
    cases h' with
    | cons hk' hr' => rw [ihk hk', ihr hr']

/-- Under every node of unfolded trees lies the unfolding from that node, no larger than the
trees. -/
theorem exists_of_mem {ns : List Node} {t : Trees} (h : Unfolds nodes ns t) {m : Node}
    (hm : m ∈ t.nodes) : ∃ s, Unfolds nodes [m] s ∧ s.nodes.length ≤ t.nodes.length := by
  induction h with
  | nil => simp at hm
  | cons hk hr ihk ihr =>
    rename_i n ns kids rest
    simp only [Trees.nodes_cons, List.mem_cons, List.mem_append] at hm
    rcases hm with rfl | hm | hm
    · exact ⟨.cons m kids .nil, .cons hk .nil, by simp⟩
    · obtain ⟨s, hs, hlen⟩ := ihk hm
      exact ⟨s, hs, by simp only [Trees.nodes_cons, List.length_cons, List.length_append]; omega⟩
    · obtain ⟨s, hs, hlen⟩ := ihr hm
      exact ⟨s, hs, by simp only [Trees.nodes_cons, List.length_cons, List.length_append]; omega⟩

/-- A node never lies in the trees unfolded from its own children. -/
theorem not_mem_kids {n : Node} {kids : Trees}
    (hk : Unfolds nodes (n.body.children.filterMap (lookupNode nodes)) kids) : n ∉ kids.nodes := by
  intro hn
  -- the unfolding from that copy of `n` is the unfolding from `n`, yet one node smaller
  obtain ⟨s, hs, hlen⟩ := hk.exists_of_mem hn
  obtain rfl := hs.unique (.cons hk .nil)
  simp only [Trees.nodes_cons, Trees.nodes_nil, List.append_nil, List.length_cons] at hlen
  omega

/-- The ancestors of unfolded trees, distinct nodes of the arena of which none lies in the
trees, leave the trees at most the rest of the arena as height: a path down the trees repeats
no node, nor any of the ancestors. -/
theorem height_add_le {ns : List Node} {t : Trees} (h : Unfolds nodes ns t)
    (hns : ∀ n ∈ ns, n ∈ nodes) {anc : List Node} (hanc : anc.Nodup) (hsub : anc ⊆ nodes)
    (hbelow : ∀ a ∈ anc, a ∉ t.nodes) : t.height + anc.length ≤ nodes.length := by
  induction h generalizing anc with
  | nil => simpa using hanc.length_le_of_subset hsub
  | cons hk hr ihk ihr =>
    rename_i n ns kids rest
    have hn : n ∈ nodes := hns n (by simp)
    -- below `n` its ancestors are those of the trees and `n` itself
    have hkids := ihk (fun k hk' => mem_of_mem_children hk')
      (show (n :: anc).Nodup from List.nodup_cons.mpr ⟨fun ha => hbelow n ha (by simp), hanc⟩)
      (List.cons_subset.mpr ⟨hn, hsub⟩)
      (fun a ha hak => by
        rcases List.mem_cons.mp ha with rfl | ha
        · exact not_mem_kids hk hak
        · exact hbelow a ha (by simp [hak]))
    have hrest := ihr (fun k hk' => hns k (by simp [hk'])) hanc hsub
      (fun a ha har => hbelow a ha (by simp [har]))
    simp only [Trees.height_cons, List.length_cons] at hkids ⊢
    omega

/-- Trees unfolded from nodes of an arena are no taller than the arena is long. -/
theorem height_le_length {ns : List Node} {t : Trees} (h : Unfolds nodes ns t)
    (hns : ∀ n ∈ ns, n ∈ nodes) : t.height ≤ nodes.length := by
  simpa using h.height_add_le hns List.nodup_nil (List.nil_subset _) (by simp)

/-- The unfolded tree from a node of an arena is lower than the depth bound of the arena's
walks, though it may hold a node twice. -/
theorem height_lt_arenaDepth {x : Node} {t : Trees} (h : Unfolds nodes [x] t) (hx : x ∈ nodes) :
    t.height < arenaDepth nodes :=
  Nat.lt_succ_of_le (h.height_le_length (by simpa using hx))

end Unfolds

/-! ## Networks -/

namespace Network

/-- What a network's rules guarantee: distinct ids, a root among the nodes, and every child id
naming a node. -/
theorem valid_of_problem? {N : Network} (h : N.problem? = none) :
    N.ids.Nodup ∧ (∀ r ∈ N.rootId, r ∈ N.ids) ∧ ∀ m ∈ N.nodes, ∀ c ∈ m.body.children, c ∈ N.ids := by
  unfold problem? at h
  cases hr : firstRepeat N.ids with
  | some d => simp [hr] at h
  | none =>
    rw [hr] at h
    have hnd := (firstRepeat_eq_none_iff _).mp hr
    have hchild : problem?.unknownChild N = none →
        ∀ m ∈ N.nodes, ∀ c ∈ m.body.children, c ∈ N.ids := by
      intro hu m hm c hc
      simp only [problem?.unknownChild, List.findSome?_eq_none_iff, Option.map_eq_none_iff,
        List.find?_eq_none, Bool.not_eq_true'] at hu
      simpa using hu m hm c hc
    cases hroot : N.rootId with
    | none =>
      simp only [hroot] at h
      exact ⟨hnd, by simp, hchild h⟩
    | some r =>
      simp only [hroot] at h
      split at h
      · rename_i hin
        exact ⟨hnd, by simpa using hin, hchild h⟩
      · simp at h

/-- In a network that keeps its rules, every child id names a node. -/
theorem resolved_of_problem? {N : Network} (h : N.problem? = none) : Resolved N.nodes := by
  obtain ⟨hnd, -, hchild⟩ := valid_of_problem? h
  intro m hm c hc
  obtain ⟨k, hk, rfl⟩ := List.mem_map.mp (hchild m hm c hc)
  simp [lookupNode_of_mem hnd hk]

end Network

/-- In a network that keeps its rules, from a node whose child ids unfold into a finite tree,
the walk, the layout and the writer's walk end within the depth bound and give what any deeper
walk gives: the walk lists the tree in pre-order, the layout places that list, and the writer
writes the lines of the tree. The walk lists each node once exactly when the tree holds each
node once. -/
theorem walk_terminates_on_trees {N : Network} (hN : N.problem? = none) {x : Node}
    (hx : x ∈ N.nodes) {t : Trees} (ht : Unfolds N.nodes [x] t) :
    t.height < arenaDepth N.nodes ∧
      (∀ d, t.height ≤ d → preorderUpTo N.nodes d x = .ok t.nodes) ∧ N.walkFrom x = t.nodes ∧
      (((N.walkFrom x).map (·.id)).Nodup ↔ (t.nodes.map (·.id)).Nodup) ∧
      (∀ c, layout N.nodes x c =
        .ok ((t.nodes.foldl (Placing.visit (spansOf t.nodes)) ⟨[(x.id, c)], []⟩).placed,
          spanIn (spansOf t.nodes) x.id)) ∧
      (∀ d, t.height ≤ d → loadLines N.nodes d x = t.loadAfter .series ([], false)) := by
  have hres := Network.resolved_of_problem? hN
  -- no path down the tree repeats a node of the network, so it is no taller than the network
  have hheight : t.height < arenaDepth N.nodes := ht.height_lt_arenaDepth hx
  have hwalk : ∀ d, t.height ≤ d → preorderUpTo N.nodes d x = .ok t.nodes :=
    fun d hd => ht.preorderUpTo_eq hres hx hd
  have hpre : preorder N.nodes x = .ok t.nodes := hwalk _ (Nat.le_of_lt hheight)
  have hfrom : N.walkFrom x = t.nodes := by simp [Network.walkFrom, hpre]
  refine ⟨hheight, hwalk, hfrom, by rw [hfrom], fun c => ?_, fun d hd => ht.loadLines_eq hd⟩
  simp only [layout, hpre, bind, Except.bind, pure, Except.pure]

/-- Two series blocks under a parallel root that share both their contacts. -/
def sharedContacts : Network where
  id := "g"
  step := 0
  nodes := [{ id := "p", body := .block .parallel ["q", "r"] },
    { id := "q", body := .block .series ["x", "y"] },
    { id := "r", body := .block .series ["x", "y"] },
    { id := "x", body := .contact .no ⟨.M, 1, none, none⟩ },
    { id := "y", body := .contact .no ⟨.M, 2, none, none⟩ }]
  rootId := some "p"

/-- The tree unfolded from the root of `sharedContacts`: each series block carries its own copy
of the two contacts. -/
def sharedContactsTree : Trees :=
  let contacts : Trees :=
    .cons { id := "x", body := .contact .no ⟨.M, 1, none, none⟩ } .nil
      (.cons { id := "y", body := .contact .no ⟨.M, 2, none, none⟩ } .nil .nil)
  .cons { id := "p", body := .block .parallel ["q", "r"] }
    (.cons { id := "q", body := .block .series ["x", "y"] } contacts
      (.cons { id := "r", body := .block .series ["x", "y"] } contacts .nil)) .nil

theorem sharedContacts_unfolds :
    Unfolds sharedContacts.nodes [{ id := "p", body := .block .parallel ["q", "r"] }]
      sharedContactsTree := by
  have hroot : (NodeBody.block .parallel ["q", "r"]).children.filterMap
      (lookupNode sharedContacts.nodes) =
      [{ id := "q", body := .block .series ["x", "y"] },
        { id := "r", body := .block .series ["x", "y"] }] := by decide
  have hseries : (NodeBody.block .series ["x", "y"]).children.filterMap
      (lookupNode sharedContacts.nodes) =
      [{ id := "x", body := .contact .no ⟨.M, 1, none, none⟩ },
        { id := "y", body := .contact .no ⟨.M, 2, none, none⟩ }] := by decide
  refine .cons ?_ .nil
  rw [hroot]
  refine .cons ?_ (.cons ?_ .nil) <;> rw [hseries] <;> exact .cons .nil (.cons .nil .nil)

/-- The walk of a network that shares its contacts ends, and lists the shared contacts once
under each block that names them. -/
theorem walk_terminates_sharedContacts :
    sharedContacts.problem? = none ∧
      { id := "p", body := .block .parallel ["q", "r"] } ∈ sharedContacts.nodes ∧
      Unfolds sharedContacts.nodes [{ id := "p", body := .block .parallel ["q", "r"] }]
        sharedContactsTree ∧
      sharedContacts.walkFrom { id := "p", body := .block .parallel ["q", "r"] } =
        sharedContactsTree.nodes :=
  ⟨by decide, by simp [sharedContacts], sharedContacts_unfolds,
    (walk_terminates_on_trees (by decide) (by simp [sharedContacts]) sharedContacts_unfolds).2.2.1⟩

/-- A block that names itself as its child. -/
def selfLoop : Network where
  id := "n"
  step := 0
  nodes := [{ id := "a", body := .block .series ["a"] }]
  rootId := some "a"

/-- The network's rules do not make its blocks a forest. A network that keeps them may share a
child between blocks, and its walk then lists the shared contacts twice; or it may hold a
cycle, from which no finite tree unfolds, so an unbounded walk never ends. -/
theorem rules_admit_shared_children_and_cycles :
    (sharedContacts.problem? = none ∧
      sharedContacts.walk.map (·.id) = ["p", "q", "x", "y", "r", "x", "y"]) ∧
    (selfLoop.problem? = none ∧ ∀ t, ¬ Unfolds selfLoop.nodes selfLoop.nodes t) := by
  -- the loop's only child is the block itself
  have hkids : (({ id := "a", body := .block .series ["a"] } : Node).body.children.filterMap
      (lookupNode selfLoop.nodes)) = selfLoop.nodes := by decide
  refine ⟨⟨by decide, by decide⟩, by decide, fun t => ?_⟩
  induction t with
  | nil => intro h; cases h
  | cons n kids rest ihk _ =>
    intro h
    cases h with
    | cons hk _ =>
      rw [hkids] at hk
      exact ihk hk

end RelayLadder
