import RelayLadder.Proofs.Tiling

/-! # Layout of a tree of any shape

Layout walks the tree under a root in pre-order, computes the spans from the end of that
list, and then sends each block's cell on to its children. Where the unfolding of child ids
from the root is a tree with no id twice, the three passes compute what the plain recursion
of `Trees.placed` and `Trees.spans` gives (`layout_of_linked`). The tiling facts of that
recursion then hold of layout's own answer (`Tiles`).

When a block of the tree names an id that the arena lacks, the walk stops at the first such
block in pre-order and names the last of its child ids that is missing (`StopsAt`). Layout
then returns that id as its error.
-/

namespace RelayLadder

/-! ## Tables keyed by id -/

section Lookup

variable {β : Type} {k : String}

theorem lookup_append_of_not_mem {l₁ l₂ : List (String × β)} (h : k ∉ l₁.map (·.1)) :
    (l₁ ++ l₂).lookup k = l₂.lookup k := by
  have hnone : l₁.lookup k = none := List.lookup_eq_none_iff.mpr fun p hp =>
    bne_iff_ne.mpr fun he => h (by rw [he]; exact List.mem_map_of_mem hp)
  rw [List.lookup_append, hnone, Option.none_or]

theorem lookup_append_of_mem {l₁ l₂ : List (String × β)} (h : k ∈ l₁.map (·.1)) :
    (l₁ ++ l₂).lookup k = l₁.lookup k := by
  obtain ⟨p, hp, rfl⟩ := List.mem_map.mp h
  have hsome : l₁.lookup p.1 ≠ none := fun hn => by
    simpa using List.lookup_eq_none_iff.mp hn p hp
  obtain ⟨s, hs⟩ := Option.ne_none_iff_exists'.mp hsome
  rw [List.lookup_append, hs, Option.some_or]

theorem lookup_of_mem {l : List (String × β)} (hnd : (l.map (·.1)).Nodup) {q : String × β}
    (hq : q ∈ l) : l.lookup q.1 = some q.2 := by
  induction l with
  | nil => simp at hq
  | cons p l ih =>
    obtain ⟨a, b⟩ := p
    rw [List.map_cons, List.nodup_cons] at hnd
    rcases List.mem_cons.mp hq with rfl | hq
    · simp
    · have hne : (q.1 == a) = false :=
        beq_false_of_ne fun he => hnd.1 (List.mem_map.mpr ⟨q, hq, he⟩)
      simp [List.lookup_cons, hne, ih hnd.2 hq]

/-- In a table whose keys are distinct, an entry is found after its keys are sent in reverse
before any others. -/
theorem lookup_reverse_append_of_mem {l : List (String × β)} (hnd : (l.map (·.1)).Nodup)
    {q : String × β} (hq : q ∈ l) (l' : List (String × β)) :
    (l.reverse ++ l').lookup q.1 = some q.2 := by
  have hrev : (l.reverse.map (·.1)).Nodup := by rw [List.map_reverse]; exact List.nodup_reverse.mpr hnd
  rw [List.lookup_append, lookup_of_mem hrev (List.mem_reverse.mpr hq), Option.some_or]

theorem lookup_reverse_append_of_not_mem {l : List (String × β)} (h : k ∉ l.map (·.1))
    (l' : List (String × β)) : (l.reverse ++ l').lookup k = l'.lookup k :=
  lookup_append_of_not_mem (by rw [List.map_reverse, List.mem_reverse]; exact h)

end Lookup

theorem lookupNode_id {nodes : List Node} {i : String} {m : Node} (h : lookupNode nodes i = some m) :
    m.id = i := by
  rw [lookupNode_eq_find?] at h
  simpa using List.find?_some h

/-- Ids that all name nodes name them in order. -/
theorem map_id_filterMap_lookupNode {nodes : List Node} {ids : List String}
    (h : ∀ i ∈ ids, (lookupNode nodes i).isSome) :
    (ids.filterMap (lookupNode nodes)).map (·.id) = ids := by
  induction ids with
  | nil => rfl
  | cons i ids ih =>
    obtain ⟨m, hm⟩ := Option.isSome_iff_exists.mp (h i List.mem_cons_self)
    rw [List.filterMap_cons, hm, List.map_cons, lookupNode_id hm,
      ih fun j hj => h j (List.mem_cons_of_mem _ hj)]

/-! ## Where the walk stops -/

/-- The child id that stops the walk at a node: the last of its children that names no node
of the arena. -/
def missingChild (nodes : List Node) (m : Node) : Option String :=
  m.body.children.reverse.find? fun i => (lookupNode nodes i).isNone

theorem missingChild_eq_none_iff {nodes : List Node} {m : Node} :
    missingChild nodes m = none ↔ ResolvesIn nodes m := by
  simp [missingChild, ResolvesIn, Option.isNone_iff_eq_none, Option.isSome_iff_ne_none]

theorem resolveChildren_of_missingChild {nodes : List Node} {m : Node} {k : String}
    (h : missingChild nodes m = some k) : resolveChildren nodes m = .error k := by
  unfold missingChild at h
  simp [resolveChildren, h]

/-- The walk of the nodes `ns` in pre-order stops with the id `k`: every node before some node
`m` names only nodes of the arena, and `k` is the last child id of `m` that names none. -/
def StopsAt (nodes : List Node) (ns : List Node) (k : String) : Prop :=
  ∃ pre m post, ns = pre ++ m :: post ∧ (∀ p ∈ pre, ResolvesIn nodes p) ∧
    ∃ l r, m.body.children = l ++ k :: r ∧ lookupNode nodes k = none ∧
      ∀ i ∈ r, (lookupNode nodes i).isSome

theorem stopsAt_of_findSome? {nodes ns : List Node} {k : String}
    (h : ns.findSome? (missingChild nodes) = some k) : StopsAt nodes ns k := by
  obtain ⟨pre, m, post, rfl, hm, hpre⟩ := List.findSome?_eq_some_iff.mp h
  obtain ⟨hk, after, before, hsplit, hafter⟩ := List.find?_eq_some_iff_append.mp hm
  -- the children read backwards: the ones after `k` come first, and each of them resolves
  refine ⟨pre, m, post, rfl, fun p hp => missingChild_eq_none_iff.mp (hpre p hp),
    before.reverse, after.reverse, ?_, by simpa [Option.isNone_iff_eq_none] using hk, ?_⟩
  · simpa using congrArg List.reverse hsplit
  · intro i hi
    simpa [Option.isNone_iff_eq_none, Option.isSome_iff_ne_none] using
      hafter i (List.mem_reverse.mp hi)

namespace Unfolds

variable {nodes : List Node}

/-- Down to a depth no less than the height of the trees, the walk of the nodes stops with the
id at which their pre-order first stops. -/
theorem mapM_preorderUpTo_error {ns : List Node} {t : Trees} (h : Unfolds nodes ns t) {d : Nat}
    (hd : t.height ≤ d) {k : String} (hk : t.nodes.findSome? (missingChild nodes) = some k) :
    ns.mapM (preorderUpTo nodes d) = .error k := by
  induction h generalizing d with
  | nil => simp at hk
  | cons hkids hrest ihk ihr =>
    rename_i n ns kids rest
    obtain ⟨d, rfl, hdk, hdr⟩ := Trees.height_cons_le hd
    -- either the walk of the first tree stops, or it lists the tree and the rest stops
    suffices hn : preorderUpTo nodes (d + 1) n = .error k ∨
        (preorderUpTo nodes (d + 1) n = .ok (n :: kids.nodes) ∧
          ns.mapM (preorderUpTo nodes (d + 1)) = .error k) by
      rcases hn with hn | ⟨hn, hr⟩
      · simp [List.mapM_cons, hn, bind, Except.bind]
      · simp [List.mapM_cons, hn, hr, bind, Except.bind]
    rw [Trees.nodes_cons, List.findSome?_cons] at hk
    cases hm : missingChild nodes n with
    | some k' =>
      rw [hm] at hk
      cases hk
      left
      simp [preorderUpTo, resolveChildren_of_missingChild hm, bind, Except.bind]
    | none =>
      rw [hm, List.findSome?_append] at hk
      have hres := resolveChildren_of_resolvesIn (missingChild_eq_none_iff.mp hm)
      cases hkk : kids.nodes.findSome? (missingChild nodes) with
      | some k' =>
        rw [hkk, Option.some_or] at hk
        cases hk
        left
        simp [preorderUpTo, hres, ihk hdk hkk, bind, Except.bind]
      | none =>
        rw [hkk, Option.none_or] at hk
        have hkres : ∀ m ∈ kids.nodes, ResolvesIn nodes m := fun m hm =>
          missingChild_eq_none_iff.mp (List.findSome?_eq_none_iff.mp hkk m hm)
        obtain ⟨L, hL, hf⟩ := hkids.mapM_preorderUpTo_of_resolvesIn hkres hdk
        right
        exact ⟨by simp [preorderUpTo, hres, hL, hf, bind, Except.bind, pure, Except.pure],
          ihr hdr hk⟩

/-- Down to a depth no less than the height of its tree, the walk of a node stops with the id
at which the tree's pre-order first stops. -/
theorem preorderUpTo_error {x : Node} {t : Trees} (h : Unfolds nodes [x] t) {d : Nat}
    (hd : t.height ≤ d) {k : String} (hk : t.nodes.findSome? (missingChild nodes) = some k) :
    preorderUpTo nodes d x = .error k := by
  have herr := h.mapM_preorderUpTo_error hd hk
  rw [mapM_preorderUpTo_singleton] at herr
  cases hx : preorderUpTo nodes d x with
  | error e => simpa [hx, Except.map] using herr
  | ok ns => simp [hx, Except.map] at herr

/-- An unfolded tree is no taller than the depth bound of the arena's walks, its root in the
arena or not: below the root, a path repeats no node of the arena. -/
theorem height_le_arenaDepth {x : Node} {t : Trees} (h : Unfolds nodes [x] t) :
    t.height ≤ arenaDepth nodes := by
  cases h with
  | cons hk hr =>
    rename_i kids rest
    cases hr
    have := hk.height_le_length fun _ hc => mem_of_mem_children hc
    simp only [Trees.height_cons, Trees.height_nil, arenaDepth]
    omega

/-- Where every node of the trees names only nodes of the arena, the trees are linked by their
child ids and their roots are the nodes they unfold from. -/
theorem linked {ns : List Node} {t : Trees} (h : Unfolds nodes ns t)
    (hres : ∀ m ∈ t.nodes, ResolvesIn nodes m) : t.roots = ns ∧ t.Linked := by
  induction h with
  | nil => simp
  | cons hkids hrest ihk ihr =>
    rename_i n ns kids rest
    obtain ⟨hkr, hkl⟩ := ihk fun m hm => hres m (by simp [hm])
    obtain ⟨hrr, hrl⟩ := ihr fun m hm => hres m (by simp [hm])
    refine ⟨by simp [hrr], (Trees.linked_cons n kids rest).mpr ⟨?_, hkl, hrl⟩⟩
    rw [hkr, map_id_filterMap_lookupNode (hres n (by simp))]

end Unfolds

/-! ## The table of spans -/

namespace Trees

theorem roots_sublist (t : Trees) : t.roots.Sublist t.nodes := by
  induction t with
  | nil => exact List.Sublist.slnil
  | cons n kids rest _ ihr => exact (ihr.trans (List.sublist_append_right _ _)).cons_cons n

/-- The cells a forest's wiring sends go to ids of the forest. -/
theorem keys_starts_subset (w : Wiring) (c : Cell) (t : Trees) :
    ∀ i ∈ (t.starts w c).map (·.1), i ∈ t.nodes.map (·.id) := by
  rw [keys_starts]
  exact fun i hi => (t.roots_sublist.map _).subset hi

theorem ids_placed (w : Wiring) (c : Cell) (t : Trees) :
    (t.placed w c).map (·.id) = t.nodes.map (·.id) := by
  induction t generalizing w c with
  | nil => rfl
  | cons n kids rest ihk ihr => simp [ihk, ihr]

section Cons

variable {n : Node} {kids rest : Trees} {i : String}

/-- The ids of a forest whose first tree is `n` over `kids`, followed by `rest`, split three
ways. -/
theorem nodup_cons_ids (hnd : ((cons n kids rest).nodes.map (·.id)).Nodup) :
    n.id ∉ kids.nodes.map (·.id) ∧ n.id ∉ rest.nodes.map (·.id) ∧
      (kids.nodes.map (·.id)).Nodup ∧ (rest.nodes.map (·.id)).Nodup ∧
      ∀ a ∈ kids.nodes.map (·.id), ∀ b ∈ rest.nodes.map (·.id), a ≠ b := by
  simp only [nodes_cons, List.map_cons, List.map_append, List.nodup_cons, List.nodup_append,
    List.mem_append, not_or] at hnd
  exact ⟨hnd.1.1, hnd.1.2, hnd.2.1, hnd.2.2.1, hnd.2.2.2⟩

theorem lookup_spanTable_kids (hnd : ((cons n kids rest).nodes.map (·.id)).Nodup)
    (hi : i ∈ kids.nodes.map (·.id)) :
    (cons n kids rest).spanTable.lookup i = kids.spanTable.lookup i := by
  obtain ⟨hnk, -, -, -, -⟩ := nodup_cons_ids hnd
  have hne : (i == n.id) = false := beq_false_of_ne fun he => hnk (he ▸ hi)
  rw [spanTable_cons, List.lookup_cons, hne,
    lookup_append_of_mem (by rwa [keys_spanTable])]

theorem lookup_spanTable_rest (hnd : ((cons n kids rest).nodes.map (·.id)).Nodup)
    (hi : i ∈ rest.nodes.map (·.id)) :
    (cons n kids rest).spanTable.lookup i = rest.spanTable.lookup i := by
  obtain ⟨-, hnr, -, -, hdisj⟩ := nodup_cons_ids hnd
  have hne : (i == n.id) = false := beq_false_of_ne fun he => hnr (he ▸ hi)
  have hk : i ∉ kids.spanTable.map (·.1) := by
    rw [keys_spanTable]
    exact fun h => hdisj _ h _ hi rfl
  rw [spanTable_cons, List.lookup_cons, hne, lookup_append_of_not_mem hk]

end Cons

/-- A table that agrees with a forest's own spans on its ids gives each tree its span. -/
theorem map_spanIn_roots {t : Trees} (hnd : (t.nodes.map (·.id)).Nodup)
    {tbl : List (String × Span)}
    (htbl : ∀ i ∈ t.nodes.map (·.id), tbl.lookup i = t.spanTable.lookup i) :
    t.roots.map (fun r => spanIn tbl r.id) = t.spans := by
  induction t with
  | nil => rfl
  | cons n kids rest _ ihr =>
    obtain ⟨-, -, -, hndr, -⟩ := nodup_cons_ids hnd
    have hhead : spanIn tbl n.id = Span.ofNode n.body kids.spans := by
      simp [spanIn, htbl n.id (by simp)]
    have hrest : ∀ i ∈ rest.nodes.map (·.id), tbl.lookup i = rest.spanTable.lookup i :=
      fun i hi => (htbl i (by simp [hi])).trans (lookup_spanTable_rest hnd hi)
    rw [roots_cons, List.map_cons, hhead, ihr hndr hrest, spans_cons]

end Trees

theorem spansOf_cons (n : Node) (R : List Node) :
    spansOf (n :: R) = (n.id, nodeSpan (spansOf R) n) :: spansOf R := rfl

/-- Layout's span of a node is the rule's, once the table holds the spans of its children. -/
theorem nodeSpan_eq_ofNode {tbl : List (String × Span)} {n : Node} {kids : Trees}
    (hch : n.body.children = kids.roots.map (·.id))
    (htbl : kids.roots.map (fun r => spanIn tbl r.id) = kids.spans) :
    nodeSpan tbl n = Span.ofNode n.body kids.spans := by
  cases hb : n.body with
  | block w ids =>
    have hids : ids = kids.roots.map (·.id) := by rw [← hch, hb]; rfl
    simp only [nodeSpan, hb, hids, List.map_map]
    rw [show spanIn tbl ∘ (·.id) = fun r : Node => spanIn tbl r.id from rfl, htbl]
    exact Span.join_eq_ofNode w _ kids.spans_pos
  | contact | coil | timer | counter | comparison | math => simp [nodeSpan, hb, Span.ofNode]

/-- Computed from the end of the pre-order list, the table of spans of a linked forest without
repeated ids is the forest's own, whatever follows it. -/
theorem spansOf_nodes_append {t : Trees} (hl : t.Linked) (hnd : (t.nodes.map (·.id)).Nodup)
    (post : List Node) : spansOf (t.nodes ++ post) = t.spanTable ++ spansOf post := by
  induction t generalizing post with
  | nil => rfl
  | cons n kids rest ihk ihr =>
    obtain ⟨hch, hlk, hlr⟩ := hl
    obtain ⟨-, -, hndk, hndr, -⟩ := Trees.nodup_cons_ids hnd
    -- below the root, the table is that of the children followed by that of the later trees
    have hbelow : spansOf (kids.nodes ++ rest.nodes ++ post) =
        kids.spanTable ++ (rest.spanTable ++ spansOf post) := by
      rw [List.append_assoc, ihk hlk hndk, ihr hlr hndr]
    have hkids : kids.roots.map (fun r => spanIn (spansOf (kids.nodes ++ rest.nodes ++ post)) r.id) =
        kids.spans := by
      refine Trees.map_spanIn_roots hndk fun i hi => ?_
      rw [hbelow, lookup_append_of_mem (by rwa [Trees.keys_spanTable])]
    rw [Trees.nodes_cons, List.cons_append, spansOf_cons, nodeSpan_eq_ofNode hch hkids, hbelow,
      Trees.spanTable_cons, List.cons_append, List.append_assoc]

/-! ## Placing -/

theorem sendChildren_cons (tbl : List (String × Span)) (w : Wiring) (c : Cell) (i : String)
    (ids : List String) (sent : List (String × Cell)) :
    Placing.sendChildren tbl w c (i :: ids) sent =
      Placing.sendChildren tbl w (w.next c (spanIn tbl i)) ids ((i, c) :: sent) := by
  cases w <;> rfl

/-- A block sends the roots of the trees under it to the cells its wiring joins them at. -/
theorem Trees.sendChildren_roots {tbl : List (String × Span)} {t : Trees}
    (htbl : t.roots.map (fun r => spanIn tbl r.id) = t.spans) (w : Wiring) (c : Cell)
    (sent : List (String × Cell)) :
    Placing.sendChildren tbl w c (t.roots.map (·.id)) sent = (t.starts w c).reverse ++ sent := by
  induction t generalizing c sent with
  | nil => rfl
  | cons n kids rest _ ihr =>
    simp only [roots_cons, List.map_cons, spans_cons, List.cons.injEq] at htbl
    rw [roots_cons, List.map_cons, sendChildren_cons, htbl.1, ihr htbl.2, starts_cons,
      List.reverse_cons, List.append_assoc, List.singleton_append]

/-- One visit places a node at the cell sent to it and sends the roots of the trees under it
on. -/
theorem Placing.visit_linked {tbl : List (String × Span)} {p : Placing} {n : Node} {kids : Trees}
    {c : Cell} (hch : n.body.children = kids.roots.map (·.id))
    (htbl : kids.roots.map (fun r => spanIn tbl r.id) = kids.spans) (hc : p.cellOf n.id = c)
    (hn : n.id ∉ p.placed.map (·.id)) :
    Placing.visit tbl p n =
      ⟨(kids.starts n.body.wiring c).reverse ++ p.sent, p.placed ++ [n.placeAt c]⟩ := by
  have hput : putNode p.placed (n.placeAt c) = p.placed ++ [n.placeAt c] := putNode_fresh hn
  cases hb : n.body with
  | block w ids =>
    have hids : ids = kids.roots.map (·.id) := by rw [← hch, hb]; rfl
    simp only [visit, hb, hc, hput, hids, Trees.sendChildren_roots htbl, NodeBody.wiring]
  | contact | coil | timer | counter | comparison | math =>
    obtain rfl : kids = .nil := Trees.eq_nil_of_children hch (by simp [hb, NodeBody.isBlock])
    simp [visit, hb, hc, hput]

/-- Placing the pre-order list of a linked forest without repeated ids, from a state that has
sent each root the cell its wiring joins it at, appends the forest placed by the rule; no cell
sent to an id outside the forest changes. The table of spans need only agree with the forest's
own on its ids. -/
theorem Trees.foldl_visit {tbl : List (String × Span)} {t : Trees} (hl : t.Linked)
    (hnd : (t.nodes.map (·.id)).Nodup)
    (htbl : ∀ i ∈ t.nodes.map (·.id), tbl.lookup i = t.spanTable.lookup i)
    (w : Wiring) (c : Cell) (p : Placing) (hc : ∀ q ∈ t.starts w c, p.sent.lookup q.1 = some q.2)
    (hfresh : ∀ m ∈ p.placed, m.id ∉ t.nodes.map (·.id)) :
    ∃ sent, t.nodes.foldl (Placing.visit tbl) p = ⟨sent, p.placed ++ t.placed w c⟩ ∧
      ∀ i ∉ t.nodes.map (·.id), sent.lookup i = p.sent.lookup i := by
  induction t generalizing w c p with
  | nil => exact ⟨p.sent, by simp, fun _ _ => rfl⟩
  | cons n kids rest ihk ihr =>
    obtain ⟨hch, hlk, hlr⟩ := hl
    obtain ⟨hnk, hnr, hndk, hndr, hdisj⟩ := nodup_cons_ids hnd
    have hagk : ∀ i ∈ kids.nodes.map (·.id), tbl.lookup i = kids.spanTable.lookup i :=
      fun i hi => (htbl i (by simp [hi])).trans (lookup_spanTable_kids hnd hi)
    have hagr : ∀ i ∈ rest.nodes.map (·.id), tbl.lookup i = rest.spanTable.lookup i :=
      fun i hi => (htbl i (by simp [hi])).trans (lookup_spanTable_rest hnd hi)
    -- the root's visit places it and sends the roots of its children on
    have hn : n.id ∉ p.placed.map (·.id) := id_not_mem_of_fresh hfresh (by simp)
    have hcn : p.cellOf n.id = c := by simp [Placing.cellOf, hc (n.id, c) (by simp)]
    have hv := Placing.visit_linked hch (kids.map_spanIn_roots hndk hagk) hcn hn
    set p1 : Placing := ⟨(kids.starts n.body.wiring c).reverse ++ p.sent, p.placed ++ [n.placeAt c]⟩
    have hc1 : ∀ q ∈ kids.starts n.body.wiring c, p1.sent.lookup q.1 = some q.2 := fun q hq =>
      lookup_reverse_append_of_mem (by rw [keys_starts]; exact hndk.sublist (kids.roots_sublist.map _))
        hq _
    have hfresh1 : ∀ m ∈ p1.placed, m.id ∉ kids.nodes.map (·.id) := by
      intro m hm hmk
      rcases List.mem_append.mp hm with hm | hm
      · exact hfresh m hm (by simp [hmk])
      · obtain rfl : m = n.placeAt c := by simpa using hm
        exact hnk hmk
    obtain ⟨sent2, hfold2, hagree2⟩ := ihk hlk hndk hagk n.body.wiring c p1 hc1 hfresh1
    -- the later trees still find the cells the root's own wiring sent them
    have hc2 : ∀ q ∈ rest.starts w (w.next c (Span.ofNode n.body kids.spans)),
        sent2.lookup q.1 = some q.2 := by
      intro q hq
      have hqr : q.1 ∈ rest.nodes.map (·.id) :=
        rest.keys_starts_subset _ _ _ (List.mem_map_of_mem hq)
      have hqk : q.1 ∉ kids.nodes.map (·.id) := fun h => hdisj _ h _ hqr rfl
      rw [hagree2 _ hqk,
        lookup_reverse_append_of_not_mem fun h => hqk (kids.keys_starts_subset _ c _ h)]
      exact hc q (by simp [hq])
    have hfresh2 : ∀ m ∈ p1.placed ++ kids.placed n.body.wiring c, m.id ∉ rest.nodes.map (·.id) := by
      intro m hm hmr
      rcases List.mem_append.mp hm with hm | hm
      · rcases List.mem_append.mp hm with hm | hm
        · exact hfresh m hm (by simp [hmr])
        · obtain rfl : m = n.placeAt c := by simpa using hm
          exact hnr hmr
      · have hmk : m.id ∈ kids.nodes.map (·.id) := kids.ids_placed _ c ▸ List.mem_map_of_mem hm
        exact hdisj _ hmk _ hmr rfl
    obtain ⟨sent3, hfold3, hagree3⟩ := ihr hlr hndr hagr w _ ⟨sent2, _⟩ hc2 hfresh2
    refine ⟨sent3, ?_, fun i hi => ?_⟩
    · rw [nodes_cons, List.foldl_cons, hv, List.foldl_append, hfold2, hfold3]
      simp [p1]
    · simp only [nodes_cons, List.map_cons, List.map_append, List.mem_cons, List.mem_append,
        not_or] at hi
      rw [hagree3 i hi.2.2, hagree2 i hi.2.1,
        lookup_reverse_append_of_not_mem fun h => hi.2.1 (kids.keys_starts_subset _ c _ h)]

/-- Where the walk from a root lists a linked tree without repeated ids, layout places the tree
by the rule and measures it by the rule. -/
theorem layout_of_linked {nodes : List Node} {root : Node} {t : Trees} (hroots : t.roots = [root])
    (hl : t.Linked) (hnd : (t.nodes.map (·.id)).Nodup) (hpre : preorder nodes root = .ok t.nodes)
    (start : Cell) :
    ∃ span, t.spans = [span] ∧ layout nodes root start = .ok (t.placed .series start, span) := by
  obtain ⟨kids, rfl⟩ : ∃ kids, t = .cons root kids .nil := by
    cases t with
    | nil => simp at hroots
    | cons n kids rest =>
      simp only [Trees.roots_cons, List.cons.injEq, Trees.roots_eq_nil_iff] at hroots
      obtain ⟨rfl, rfl⟩ := hroots
      exact ⟨kids, rfl⟩
  have htbl : spansOf (Trees.cons root kids .nil).nodes = (Trees.cons root kids .nil).spanTable := by
    have h := spansOf_nodes_append hl hnd []
    rwa [List.append_nil, show spansOf [] = [] from rfl, List.append_nil] at h
  obtain ⟨sent, hfold, -⟩ := Trees.foldl_visit hl hnd (fun _ _ => rfl) .series start
    ⟨[(root.id, start)], []⟩ (by simp) (by simp)
  refine ⟨Span.ofNode root.body kids.spans, rfl, ?_⟩
  simp only [layout, hpre, bind, Except.bind, pure, Except.pure, htbl, hfold]
  simp [spanIn]

/-! ## Tiles -/

/-- What a layout of a tree from a cell gives: the nodes of the tree in pre-order, each placed
by the rule and changed in nothing but its cell; the span of the tree by the rule; each block at
the cell of its first child; the leaves at distinct cells inside the span's rectangle, and that
rectangle as their bounding box when no block is empty. -/
structure Tiles (t : Trees) (start : Cell) (placed : List Node) (span : Span) : Prop where
  spans_eq : t.spans = [span]
  placed_eq : placed = t.placed .series start
  nodes_eq : placed.map (·.placeAt {}) = t.nodes.map (·.placeAt {})
  first_child : ∀ m ∈ placed, ∀ w i is, m.body = .block w (i :: is) →
    ∃ m' ∈ placed, m'.id = i ∧ m'.cell = m.cell
  cells_nodup : ((placed.filter fun m => !m.body.isBlock).map (·.cell)).Nodup
  covers : ∀ m ∈ placed, m.body.isBlock = false → span.Covers start m.cell
  cellBounds_eq : (∀ m ∈ t.nodes, m.body.isBlock = true → m.body.children ≠ []) →
    cellBounds placed = (start.row, start.col, start.row + span.rows - 1, start.col + span.cols - 1)

/-- A linked tree placed by the rule tiles its span. -/
theorem Trees.tiles {t : Trees} {span : Span} (hl : t.Linked) (hspans : t.spans = [span])
    (start : Cell) : Tiles t start (t.placed .series start) span := by
  have hjoined : Span.joined .series t.spans = span := by
    rw [hspans, Span.joined_cons, Span.joined_nil, Span.adjoin_zero]
  have hne : t ≠ .nil := fun h => by simp [h] at hspans
  have hcov := hjoined ▸ t.placed_covers hl .series start
  refine ⟨hspans, rfl, t.placed_placeAt .series start, t.placed_first_child hl .series start,
    t.placed_cells_nodup hl .series start, hcov, fun hfull => ?_⟩
  exact cellBounds_of_reaches hcov (hjoined ▸ t.placed_reaches hl hfull hne .series start)

/-- Layout of the tree that unfolds from a root with no id twice. If a node of the tree names an
id that the arena lacks, layout fails with the last such id of the first such node in
pre-order. Otherwise it succeeds, and its nodes and span tile the tree. -/
theorem layout_tiles_tree {nodes : List Node} {root : Node} {t : Trees}
    (ht : Unfolds nodes [root] t) (hnd : (t.nodes.map (·.id)).Nodup) (start : Cell) :
    ((∃ m ∈ t.nodes, ¬ResolvesIn nodes m) →
      ∃ k, StopsAt nodes t.nodes k ∧ layout nodes root start = .error k) ∧
    ((∀ m ∈ t.nodes, ResolvesIn nodes m) →
      ∃ placed span, layout nodes root start = .ok (placed, span) ∧ Tiles t start placed span) := by
  have hheight := ht.height_le_arenaDepth
  constructor
  · rintro ⟨m, hm, hres⟩
    -- the first node in pre-order that does not resolve stops the walk
    obtain ⟨k, hk⟩ : ∃ k, t.nodes.findSome? (missingChild nodes) = some k := by
      cases hfind : t.nodes.findSome? (missingChild nodes) with
      | some k => exact ⟨k, rfl⟩
      | none =>
        exact absurd (missingChild_eq_none_iff.mp (List.findSome?_eq_none_iff.mp hfind m hm)) hres
    have hpre : preorder nodes root = .error k := ht.preorderUpTo_error hheight hk
    exact ⟨k, stopsAt_of_findSome? hk, by simp [layout, hpre, bind, Except.bind]⟩
  · intro hres
    obtain ⟨hroots, hl⟩ := ht.linked hres
    have hpre : preorder nodes root = .ok t.nodes := ht.preorderUpTo_eq_of_resolvesIn hres hheight
    obtain ⟨span, hspans, hlayout⟩ := layout_of_linked hroots hl hnd hpre start
    exact ⟨_, span, hlayout, t.tiles hl hspans start⟩

/-- A series block of two contacts. -/
def seriesPair : Network where
  id := "n"
  step := 0
  nodes := [{ id := "s", body := .block .series ["a", "b"] },
    { id := "a", body := .contact .no ⟨.M, 1, none, none⟩ },
    { id := "b", body := .contact .nc ⟨.M, 2, none, none⟩ }]
  rootId := some "s"

/-- The tree of `seriesPair`. -/
def seriesPairTree : Trees :=
  .cons { id := "s", body := .block .series ["a", "b"] }
    (.cons { id := "a", body := .contact .no ⟨.M, 1, none, none⟩ } .nil
      (.cons { id := "b", body := .contact .nc ⟨.M, 2, none, none⟩ } .nil .nil)) .nil

theorem seriesPair_unfolds :
    Unfolds seriesPair.nodes [{ id := "s", body := .block .series ["a", "b"] }] seriesPairTree := by
  have hkids : (NodeBody.block .series ["a", "b"]).children.filterMap (lookupNode seriesPair.nodes) =
      [{ id := "a", body := .contact .no ⟨.M, 1, none, none⟩ },
        { id := "b", body := .contact .nc ⟨.M, 2, none, none⟩ }] := by decide
  refine .cons ?_ .nil
  rw [hkids]
  exact .cons .nil (.cons .nil .nil)

theorem layout_tiles_seriesPair :
    Unfolds seriesPair.nodes [{ id := "s", body := .block .series ["a", "b"] }] seriesPairTree ∧
      (seriesPairTree.nodes.map (·.id)).Nodup ∧
      ∃ placed span, layout seriesPair.nodes { id := "s", body := .block .series ["a", "b"] } {} =
        .ok (placed, span) ∧ Tiles seriesPairTree {} placed span :=
  ⟨seriesPair_unfolds, by decide,
    (layout_tiles_tree seriesPair_unfolds (by decide) {}).2 (by decide)⟩

/-- A block with two missing children: the walk names the last of them. -/
example : layout [{ id := "a", body := .contact .no ⟨.M, 1, none, none⟩ }]
    { id := "s", body := .block .series ["x", "a", "y"] } {} = .error "y" := by rfl

end RelayLadder
