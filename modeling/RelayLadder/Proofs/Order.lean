import RelayLadder.Proofs.Refusal
import RelayLadder.Proofs.Lines

/-! # Leaves in row order

Read from the oldest branch to the latest, the leaves of a finished rung are the conditions
that its rows built: first those that load or join in series, in row order, then those that
waited to join in parallel, the latest first. A load adds a branch of one leaf after the
others, an `AND` puts its condition at the right end of the latest branch, and a join of the
two latest branches keeps their leaves where they were; finishing the rung puts each pending
condition, the latest first, at the right end of the latest branch (`Holds.foldPending`).

`Ordered` reads a state as branches whose leaves are the conditions built so far, and one lemma
per kind of row keeps it.
-/

namespace RelayLadder

/-- The leaves of a well-formed branch are its nodes that are not blocks, in pre-order. -/
theorem Branch.filter_nodes {b : Branch} (hwf : b.WF) :
    b.nodes.filter (fun n => !n.body.isBlock) = b.leaves := by
  induction b with
  | leaf n => simp [NodeBody.isBlock_of_isCondition hwf]
  | join n w f s ihf ihs =>
    obtain ⟨hw, hf, hs⟩ := hwf
    have hn : n.body.isBlock = true := by rw [hw]; rfl
    simp [List.filter_append, hn, ihf hf, ihs hs]

namespace Assembler

/-- The condition a row builds on a state, with the link that places it; none when the row
builds no condition. -/
def builtCondition? (a : Assembler) (row : Row) : Option (Link × Node) := do
  let i ← lookupInstruction row.instruction
  let l ← i.link?
  let body ← conditionBody row i
  pure (l, (a.keep row.comment body).1)

/-- The conditions that rows build one after the other from a state, in row order, each with
the link that places it. -/
def conditionsBuilt (a : Assembler) : List Row → List (Link × Node)
  | [] => []
  | r :: rs => (a.builtCondition? r).toList ++ (a.perform (.row r)).conditionsBuilt rs

/-- A row that builds a condition gives it the next id and places it by its link. -/
theorem builtCondition?_eq_some {a : Assembler} {r : Row} {l : Link} {c : Node}
    (h : a.builtCondition? r = some (l, c)) :
    c.id = nodeId (a.count + 1) ∧ c.body.isCondition = true ∧
      a.perform (.row r) =
        (({ a with nodes := a.nodes ++ [c], count := a.count + 1 } : Assembler).link l c).2 := by
  simp only [builtCondition?, bind, Option.bind_eq_some_iff, pure, Option.some.injEq,
    Prod.mk.injEq] at h
  obtain ⟨i, hi, l', hl, body, hb, rfl, rfl⟩ := h
  refine ⟨rfl, conditionBody_isCondition hb, ?_⟩
  cases i with
  | contact k t | compare k t =>
    obtain rfl : k = l' := by simpa [Instruction.link?] using hl
    simp [perform, step, hi, hb, keep, fresh]
  | joinBranches | coil | timer | counter | math => simp [Instruction.link?] at hl

/-- A row that builds no condition builds nothing, joins the two latest branches, or builds a
tap, which only takes an id. -/
theorem builtCondition?_eq_none {a : Assembler} {r : Row} (h : a.builtCondition? r = none) :
    a.perform (.row r) = a ∨ (∃ w n, a.joinLatest w = some (n, a.perform (.row r))) ∨
      a.perform (.row r) = { a with count := a.count + 1 } := by
  cases hs : a.step r with
  | none => exact .inl (by simp [perform, hs])
  | some p =>
    obtain ⟨n, a'⟩ := p
    obtain ⟨i, hi, ⟨l, body, hb, -, -⟩ | ⟨w, rfl, hj⟩ | ⟨body, -, hf⟩⟩ := step_cases hs
    · -- a row whose condition reads builds it
      exfalso
      cases i <;> simp_all [conditionBody, builtCondition?, Instruction.link?]
    · exact .inr (.inl ⟨w, n, by simpa [perform, hs] using hj⟩)
    · obtain ⟨-, rfl⟩ := Prod.mk.inj hf
      exact .inr (.inr (by simp [perform, hs]))

/-- The conditions of a list that load or join in series, in order. -/
def loaded (cs : List (Link × Node)) : List Node := (cs.filter (·.1 != .or)).map (·.2)

/-- The conditions of a list that wait to join in parallel, in order. -/
def waiting (cs : List (Link × Node)) : List Node := (cs.filter (·.1 == .or)).map (·.2)

/-- The state read as branches whose leaves are the conditions built so far: the branches, from
the oldest, hold those that load or join in series, in order, and the pending branches those
that wait, the latest first. -/
structure Ordered (a : Assembler) (bs ps : List Branch) (cs : List (Link × Node)) : Prop where
  holds : Holds a bs ps
  pending : a.pendingOr = ps.map Branch.root
  branch_leaves : bs.reverse.flatMap Branch.leaves = loaded cs
  pending_leaves : ps.flatMap Branch.leaves = (waiting cs).reverse

namespace Ordered

variable {a : Assembler} {bs ps : List Branch} {cs : List (Link × Node)}

theorem reset (a : Assembler) : Ordered a.reset [] [] [] :=
  ⟨holds_reset a, rfl, rfl, rfl⟩

/-- A condition built on a state and placed by its link keeps the order: a load or an `AND`
puts it after the leaves of the branches, an `OR` before those of the pending branches. -/
theorem link (h : Ordered a bs ps cs) {c : Node} (hid : c.id = nodeId (a.count + 1))
    (hc : c.body.isCondition = true) (l : Link) :
    ∃ bs' ps', Ordered (({ a with nodes := a.nodes ++ [c], count := a.count + 1 } : Assembler).link l c).2
      bs' ps' (cs ++ [(l, c)]) := by
  cases l with
  | load =>
    exact ⟨_, ps, h.holds.push hid hc, h.pending, by simp [h.branch_leaves, loaded],
      by simp [h.pending_leaves, waiting]⟩
  | and =>
    cases hs : a.stack with
    | nil =>
      -- on an empty stack the condition loads
      have hpush := h.holds.push hid hc
      rw [hs] at hpush
      exact ⟨_, ps, by simpa [Assembler.link, hs] using hpush, h.pending,
        by simp [h.branch_leaves, loaded], by simp [h.pending_leaves, waiting]⟩
    | cons top rest =>
      obtain ⟨b, br, rfl, rfl, rfl⟩ := h.holds.stack_cons hs
      have hser := h.holds.series hid hc
      refine ⟨.join { id := nodeId (a.count + 2), body := .block .series [b.root.id, c.id] } .series b
        (.leaf c) :: br, ps, ⟨?_, h.pending, ?_, by simp [h.pending_leaves, waiting]⟩⟩
      · simpa [Assembler.link, hs, join, keep, fresh, nextId, Nat.add_assoc] using hser
      · have hl : loaded (cs ++ [(.and, c)]) = loaded cs ++ [c] := by simp [loaded]
        rw [hl, ← h.branch_leaves]
        simp
  | or =>
    exact ⟨bs, _, h.holds.wait hid hc, by simp [Assembler.link, h.pending],
      by simp [h.branch_leaves, loaded],
      by simp [h.pending_leaves, waiting]⟩

/-- Joining the two latest branches keeps their leaves where they were. -/
theorem joinLatest (h : Ordered a bs ps cs) {w : Wiring} {n : Node} {a' : Assembler}
    (hj : a.joinLatest w = some (n, a')) : ∃ bs' ps', Ordered a' bs' ps' cs := by
  unfold Assembler.joinLatest at hj
  split at hj
  · rename_i newer older rest hs
    obtain ⟨rfl, rfl⟩ := Prod.mk.inj (Option.some.inj hj)
    obtain ⟨bn, br, rfl, rfl, hr⟩ := h.holds.stack_cons hs
    obtain ⟨bo, br, rfl, rfl, rfl⟩ := List.map_eq_cons_iff.mp hr.symm
    refine ⟨_, ps, h.holds.join w, h.pending, ?_, h.pending_leaves⟩
    rw [← h.branch_leaves]
    simp
  · simp at hj

/-- A tap takes an id and keeps the order. -/
theorem tap (h : Ordered a bs ps cs) : Ordered { a with count := a.count + 1 } bs ps cs :=
  ⟨h.holds.tap, h.pending, h.branch_leaves, h.pending_leaves⟩

/-- A row keeps the order, with the condition it builds, if any, added to those built. -/
theorem perform (h : Ordered a bs ps cs) (r : Row) :
    ∃ bs' ps', Ordered (a.perform (.row r)) bs' ps' (cs ++ (a.builtCondition? r).toList) := by
  cases hb : a.builtCondition? r with
  | some lc =>
    obtain ⟨l, c⟩ := lc
    obtain ⟨hid, hc, he⟩ := builtCondition?_eq_some hb
    rw [he]
    simpa using h.link hid hc l
  | none =>
    rcases builtCondition?_eq_none hb with he | ⟨w, n, hj⟩ | he
    · exact ⟨bs, ps, by simpa [he] using h⟩
    · simpa using h.joinLatest hj
    · exact ⟨bs, ps, by simpa [he] using h.tap⟩

/-- Rows applied one after the other keep the order, with the conditions they build added in
row order. -/
theorem run (h : Ordered a bs ps cs) (rows : List Row) :
    ∃ bs' ps', Ordered (a.run (rows.map .row)) bs' ps' (cs ++ a.conditionsBuilt rows) := by
  induction rows generalizing a bs ps cs with
  | nil => exact ⟨bs, ps, by simpa [Assembler.run, conditionsBuilt] using h⟩
  | cons r rows ih =>
    obtain ⟨bs', ps', h'⟩ := h.perform r
    obtain ⟨bs'', ps'', h''⟩ := ih h'
    exact ⟨bs'', ps'', by simpa [Assembler.run, conditionsBuilt] using h''⟩

/-- Finishing the rung leaves branches whose leaves, from the oldest, are the conditions that
load or join in series, then those that wait, the latest first. -/
theorem result (h : Ordered a bs ps cs) :
    ∃ bs', Holds a.result.2 bs' [] ∧
      bs'.reverse.flatMap Branch.leaves = loaded cs ++ (waiting cs).reverse := by
  have h0 : Holds { a with pendingOr := [] } bs ps :=
    ⟨h.holds.stack_eq, h.holds.wf, h.holds.perm, h.holds.numbered⟩
  obtain ⟨bs', h', -, hl⟩ := h0.foldPending
  refine ⟨bs', by simpa only [Assembler.result, h.pending] using h', ?_⟩
  rw [hl, h.branch_leaves, h.pending_leaves]

end Ordered

/-- Rows applied after a reset and then finishing the rung: the trees of the branches, walked
from the oldest branch to the latest, have as their leaves the conditions that load or join in
series, in row order, followed by the conditions that wait to join in parallel, in reverse row
order. -/
theorem leaves_in_row_order (a : Assembler) (rows : List Row) :
    ∃ trees, List.Forall₂ (fun x t => preorder (a.reset.run (rows.map .row)).result.2.nodes x = .ok t)
        (a.reset.run (rows.map .row)).result.2.branches trees ∧
      trees.flatten.filter (fun n => !n.body.isBlock) =
        loaded (a.reset.conditionsBuilt rows) ++ (waiting (a.reset.conditionsBuilt rows)).reverse := by
  obtain ⟨bs, ps, h⟩ := (Ordered.reset a).run rows
  obtain ⟨bs', hs, hl⟩ := h.result
  simp only [List.nil_append] at hl
  have hmem : ∀ b ∈ bs'.reverse, b ∈ bs' ++ [] := by simp
  refine ⟨bs'.reverse.map Branch.nodes, ?_, ?_⟩
  · rw [branches, hs.stack_eq, ← List.map_reverse, List.forall₂_map_left_iff,
      List.forall₂_map_right_iff, List.forall₂_same]
    intro b hb
    exact preorder_root (hs.wf b (hmem b hb)).1 hs.ids_nodup (hs.branch_ids_nodup (hmem b hb))
      fun m hm => hs.mem_of_mem_branch (hmem b hb) hm
  · rw [← hl, List.filter_flatten, List.map_map, List.flatMap_def]
    congr 1
    exact List.map_congr_left fun b hb => Branch.filter_nodes (hs.wf b (hmem b hb)).1

end Assembler

end RelayLadder
