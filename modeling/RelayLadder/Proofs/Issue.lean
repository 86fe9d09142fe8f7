import RelayLadder.Proofs.Forest
import RelayLadder.Proofs.Shape
import RelayLadder.Program.Build

/-! # Every node gets an id of its own

Between two resets the assembler numbers every node it builds from its counter: conditions and
blocks go into the arena, taps are handed back. Over the rows of a step, the arena and the taps
together never hold an id twice, and every id is numbered above the counter at the reset and
up to the counter now. Finishing the rung only adds blocks numbered above the counter. So the
network of a step has the shape of every built network, with all its ids in the range of
counters that the step used; the next step starts at the top of that range.
-/

namespace RelayLadder

namespace Assembler

/-- A node numbered above `lo` and up to `hi`. -/
def Numbered (lo hi : Nat) (m : Node) : Prop := ∃ k, m.id = nodeId k ∧ lo < k ∧ k ≤ hi

theorem Numbered.mono {lo hi lo' hi' : Nat} {m : Node} (h : Numbered lo hi m) (hlo : lo' ≤ lo)
    (hhi : hi ≤ hi') : Numbered lo' hi' m := by
  obtain ⟨k, hk, h1, h2⟩ := h
  exact ⟨k, hk, by omega, by omega⟩

/-- Nodes numbered in ranges that do not overlap have different ids. -/
theorem Numbered.id_ne {lo mid hi : Nat} {m m' : Node} (h : Numbered lo mid m)
    (h' : Numbered mid hi m') : m.id ≠ m'.id := by
  obtain ⟨k, hk, -, hle⟩ := h
  obtain ⟨k', hk', hlt, -⟩ := h'
  rw [hk, hk']
  intro he
  have := nodeId_injective he
  omega

/-! ## States of one rung -/

/-- A later state of the same rung: the counter has not gone back, and the arena has grown at
its end by nodes numbered above the earlier counter. -/
structure Extends (a a' : Assembler) : Prop where
  count_le : a.count ≤ a'.count
  grows : ∃ new, a'.nodes = a.nodes ++ new ∧ ∀ m ∈ new, Numbered a.count a'.count m

theorem Extends.of_nodes_eq {a a' : Assembler} (hc : a.count ≤ a'.count)
    (hn : a'.nodes = a.nodes) : Extends a a' :=
  ⟨hc, [], by simp [hn], by simp⟩

theorem Extends.trans {a b c : Assembler} (h : Extends a b) (h' : Extends b c) : Extends a c := by
  obtain ⟨new, hn, hnum⟩ := h.grows
  obtain ⟨new', hn', hnum'⟩ := h'.grows
  refine ⟨Nat.le_trans h.count_le h'.count_le, new ++ new', by rw [hn', hn, List.append_assoc], ?_⟩
  intro m hm
  rcases List.mem_append.mp hm with hm | hm
  · exact (hnum m hm).mono (Nat.le_refl _) h'.count_le
  · exact (hnum' m hm).mono h.count_le (Nat.le_refl _)

theorem Move.extends {a a' : Assembler} {n : Node} (hm : Move a n a') : Extends a a' := by
  cases hm with
  | push n hid _ | wait n hid _ =>
      exact ⟨by simp, [n], rfl, by simpa using ⟨a.count + 1, hid, by omega, by omega⟩⟩
  | series c top rest _ hid _ =>
      refine ⟨by simp, _, rfl, ?_⟩
      simp only [List.mem_cons, List.not_mem_nil, or_false]
      rintro m (rfl | rfl)
      · exact ⟨a.count + 1, hid, by omega, by omega⟩
      · exact ⟨a.count + 2, rfl, by omega, by omega⟩
  | join w newer older rest _ =>
      exact ⟨by simp, _, rfl, by simpa using ⟨a.count + 1, rfl, by omega, by omega⟩⟩
  | tap n _ _ => exact .of_nodes_eq (by simp) rfl

/-- A row that builds a tap only moves the counter on. -/
theorem Move.of_isTap {a a' : Assembler} {n : Node} (hm : Move a n a')
    (ht : n.body.isTap = true) : a' = { a with count := a.count + 1 } ∧ n.id = nodeId (a.count + 1) := by
  cases hm with
  | push n _ hc | wait n _ hc => cases hb : n.body <;> simp_all [NodeBody.isTap, NodeBody.isCondition]
  | series => simp [NodeBody.isTap] at ht
  | join => simp [NodeBody.isTap] at ht
  | tap n hid _ => exact ⟨rfl, hid⟩

theorem pendingOr_foldPending (a : Assembler) (os : List Node) :
    (a.foldPending os).pendingOr = a.pendingOr := by
  induction os generalizing a with
  | nil => rfl
  | cons o os ih =>
      rw [foldPending]
      split
      · exact ih _
      · exact ih _

theorem extends_foldPending (a : Assembler) (os : List Node) : Extends a (a.foldPending os) := by
  induction os generalizing a with
  | nil => exact .of_nodes_eq (Nat.le_refl _) rfl
  | cons o os ih =>
      rw [foldPending]
      split
      · have h : Extends a { a with stack := [o] } := .of_nodes_eq (Nat.le_refl _) rfl
        exact h.trans (ih _)
      · rename_i top rest _
        -- the parallel block is the one node this step adds
        let j := a.join .parallel top o
        have h : Extends a { j.2 with stack := j.1 :: rest } := by
          refine ⟨Nat.le_succ _, [j.1], rfl, ?_⟩
          intro m hm
          obtain rfl := List.mem_singleton.mp hm
          exact ⟨a.count + 1, rfl, Nat.lt_succ_self _, Nat.le_refl _⟩
        exact h.trans (ih _)

theorem extends_result (a : Assembler) : Extends a a.result.2 := by
  have h : Extends a { a with pendingOr := [] } := .of_nodes_eq (Nat.le_refl _) rfl
  exact h.trans (extends_foldPending _ a.pendingOr)

theorem pendingOr_result (a : Assembler) : a.result.2.pendingOr = [] :=
  pendingOr_foldPending _ _

theorem result_fst (a : Assembler) : a.result.1 = a.result.2.stack.head? := rfl

/-! ## The ids a rung has issued -/

/-- Since a reset at counter `c`: the state is a forest, and every node built, kept in the
arena or handed back among the taps, has an id of its own, numbered above `c` and up to the
counter. -/
structure Issued (c : Nat) (a : Assembler) (taps : List Node) : Prop where
  built : a.Built
  start_le : c ≤ a.count
  ids_nodup : ((a.nodes ++ taps).map (·.id)).Nodup
  numbered : ∀ m ∈ a.nodes ++ taps, Numbered c a.count m
  taps_isTap : ∀ t ∈ taps, t.body.isTap = true

theorem issued_reset (a : Assembler) : Issued a.count a.reset [] :=
  ⟨built_reset a, Nat.le_refl _, by simp [reset], by simp [reset], by simp⟩

namespace Issued

variable {c : Nat} {a a' : Assembler} {taps : List Node}

/-- The arena may grow by nodes above the counter while the taps stay. -/
theorem grow (h : Issued c a taps) (hb : a'.Built) (he : Extends a a') : Issued c a' taps := by
  obtain ⟨new, hn, hnum⟩ := he.grows
  refine ⟨hb, Nat.le_trans h.start_le he.count_le, ?_, ?_, h.taps_isTap⟩
  · obtain ⟨bs, ps, hh, -⟩ := hb
    have hnd := h.ids_nodup
    rw [List.map_append, List.nodup_append] at hnd ⊢
    refine ⟨hh.ids_nodup, hnd.2.1, ?_⟩
    intro x hx y hy hxy
    rw [hn, List.map_append, List.mem_append] at hx
    rcases hx with hx | hx
    · exact hnd.2.2 x hx y hy hxy
    · -- a new node is numbered above every tap
      obtain ⟨m, hm, rfl⟩ := List.mem_map.mp hx
      obtain ⟨t, ht, rfl⟩ := List.mem_map.mp hy
      exact (h.numbered t (List.mem_append_right _ ht)).id_ne (hnum m hm) hxy.symm
  · intro m hm
    rw [hn, List.append_assoc, List.mem_append, List.mem_append] at hm
    rcases hm with hm | hm | hm
    · exact (h.numbered m (List.mem_append_left _ hm)).mono (Nat.le_refl _) he.count_le
    · exact (hnum m hm).mono h.start_le (Nat.le_refl _)
    · exact (h.numbered m (List.mem_append_right _ hm)).mono (Nat.le_refl _) he.count_le

/-- A tap takes the next id and joins the taps. -/
theorem tap (h : Issued c a taps) (hb : Built { a with count := a.count + 1 }) {n : Node}
    (hid : n.id = nodeId (a.count + 1)) (ht : n.body.isTap = true) :
    Issued c { a with count := a.count + 1 } (taps ++ [n]) := by
  have hn : Numbered a.count (a.count + 1) n := ⟨a.count + 1, hid, by omega, by omega⟩
  refine ⟨hb, Nat.le_succ_of_le h.start_le, ?_, ?_, ?_⟩
  · rw [← List.append_assoc, List.map_append]
    refine List.nodup_append.mpr ⟨h.ids_nodup, by simp, ?_⟩
    intro x hx y hy hxy
    obtain ⟨m, hm, rfl⟩ := List.mem_map.mp hx
    obtain rfl : y = n.id := by simpa using hy
    exact (h.numbered m hm).id_ne hn hxy
  · intro m hm
    rw [← List.append_assoc, List.mem_append] at hm
    rcases hm with hm | hm
    · exact (h.numbered m hm).mono (Nat.le_refl _) (Nat.le_succ _)
    · obtain rfl : m = n := by simpa using hm
      exact hn.mono h.start_le (Nat.le_refl _)
  · intro t ht'
    rcases List.mem_append.mp ht' with ht' | ht'
    · exact h.taps_isTap t ht'
    · obtain rfl : t = n := by simpa using ht'
      exact ht

theorem step (h : Issued c a taps) {row : Row} {n : Node} (hs : a.step row = some (n, a')) :
    Issued c a' (if n.body.isTap then taps ++ [n] else taps) := by
  have hb := h.built.step hs
  have hm := step_move hs
  by_cases ht : n.body.isTap = true
  · obtain ⟨rfl, hid⟩ := hm.of_isTap ht
    rw [if_pos ht]
    exact h.tap hb hid ht
  · rw [if_neg ht]
    exact h.grow hb hm.extends

theorem assembleRow {acc : Assembler × List Node} (h : Issued c acc.1 acc.2) (r : Row) :
    Issued c (RelayLadder.assembleRow acc r).1 (RelayLadder.assembleRow acc r).2 := by
  cases hs : acc.1.step r with
  | none => simpa only [RelayLadder.assembleRow, hs] using h
  | some p =>
      obtain ⟨n, a'⟩ := p
      simpa only [RelayLadder.assembleRow, hs] using h.step hs

theorem foldl_assembleRow {acc : Assembler × List Node} (h : Issued c acc.1 acc.2)
    (rows : List Row) :
    Issued c (rows.foldl RelayLadder.assembleRow acc).1 (rows.foldl RelayLadder.assembleRow acc).2 := by
  induction rows generalizing acc with
  | nil => exact h
  | cons r rows ih =>
      rw [List.foldl_cons]
      exact ih (h.assembleRow r)

theorem result (h : Issued c a taps) : Issued c a.result.2 taps :=
  h.grow h.built.result (extends_result a)

/-- A branch of the forest and the taps have distinct ids. -/
theorem nodup_of_subperm (h : Issued c a taps) {l : List Node} (hl : l.Subperm a.nodes) :
    ((l ++ taps).map (·.id)).Nodup := by
  obtain ⟨l', hp, hs⟩ := hl
  have : ((l' ++ taps).map (·.id)).Nodup :=
    List.Nodup.sublist ((hs.append_right taps).map _) h.ids_nodup
  exact ((hp.append_right taps).map _).nodup_iff.mp this

end Issued

theorem issued_assembleRows (a : Assembler) (rows : List Row) :
    Issued a.count (assembleRows a.reset rows).1 (assembleRows a.reset rows).2 :=
  (issued_reset a).foldl_assembleRow rows

/-! ## The network of a step -/

theorem buildNetwork_snd {a a1 a2 : Assembler} {step : Int} {rows : List Row} {taps : List Node}
    {root : Option Node} (hx : assembleRows a.reset rows = (a1, taps))
    (hr : a1.result = (root, a2)) : (buildNetwork a step rows).2 = a2 := by
  simp only [buildNetwork, hx, hr]

/-- The network of a step has the shape of every built network: its tree is a branch of the
arena once the rung is finished, its taps are the ones the rows built, and all its ids are
numbered within the counters that the step used. -/
theorem buildNetwork_shape (a : Assembler) (step : Int) (rows : List Row) :
    ∃ s : Shape, (buildNetwork a step rows).1 = s.network step (firstComment rows) ∧
      s.taps = (assembleRows a.reset rows).2 ∧
      (∀ m ∈ s.logic, m ∈ (assembleRows a.reset rows).1.result.2.nodes) ∧
      a.count ≤ (buildNetwork a step rows).2.count ∧
      ∀ m ∈ s.logic ++ s.taps, Numbered a.count (buildNetwork a step rows).2.count m := by
  rcases hx : assembleRows a.reset rows with ⟨a1, taps⟩
  rcases hr : a1.result with ⟨root, a2⟩
  have h2 : Issued a.count a2 taps := by
    have := (issued_assembleRows a rows).result
    rwa [hx, hr] at this
  have hroot : root = a2.stack.head? := by
    have := result_fst a1
    rwa [hr] at this
  rw [buildNetwork_snd hx hr]
  obtain ⟨bs, ps, hh, hp⟩ := h2.built
  obtain rfl : ps = [] := by
    have := pendingOr_result a1
    rw [hr] at this
    exact List.map_eq_nil_iff.mp (hp.symm.trans this)
  cases bs with
  | nil =>
      obtain rfl : root = none := by simp [hroot, hh.stack_eq]
      have hnd : (taps.map (·.id)).Nodup := by
        have := h2.ids_nodup
        rw [List.map_append] at this
        exact List.Nodup.sublist (List.sublist_append_right _ _) this
      refine ⟨⟨none, taps, by simp, h2.taps_isTap, by simpa using hnd⟩, ?_, rfl,
        by simp [Shape.logic], h2.start_le, ?_⟩
      · simp only [buildNetwork, hx, hr]
        rfl
      · intro m hm
        exact h2.numbered m (List.mem_append_right _ (by simpa [Shape.logic] using hm))
  | cons b rest =>
      have hb : b ∈ (b :: rest) ++ [] := by simp
      obtain rfl : root = some b.root := by simp [hroot, hh.stack_eq]
      have hsub : b.nodes.Subperm a2.nodes :=
        (List.sublist_append_left _ _).subperm.trans (by simpa using hh.perm.subperm)
      have hlayout : layout a2.nodes b.root = .ok (b.placed {}, b.span) :=
        layout_branch (hh.wf b hb).1 hh.ids_nodup (hh.branch_ids_nodup hb)
          (fun m hm => hh.mem_of_mem_branch hb hm) {}
      refine ⟨⟨some b, taps, by simpa using (hh.wf b hb).1, h2.taps_isTap,
        by simpa using h2.nodup_of_subperm hsub⟩, ?_, rfl, ?_, h2.start_le, ?_⟩
      · simp only [buildNetwork, hx, hr, hlayout]
        rfl
      · intro m hm
        exact hh.mem_of_mem_branch hb (by simpa [Shape.logic] using hm)
      · intro m hm
        rcases List.mem_append.mp hm with hm | hm
        · exact h2.numbered m (List.mem_append_left _ (hh.mem_of_mem_branch hb
            (by simpa [Shape.logic] using hm)))
        · exact h2.numbered m (List.mem_append_right _ hm)

end Assembler

end RelayLadder
