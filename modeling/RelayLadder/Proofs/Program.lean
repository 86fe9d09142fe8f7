import RelayLadder.Proofs.Issue

/-! # The programs the builder makes

The rows of a listing are grouped by step in source order, the steps are taken in ascending
order, and each network is built from the rows of its step. The taps of a network are the taps
its rows describe, in row order. Every body the builder makes is regular: a move has a single
source and no address names a bit above fifteen.
-/

namespace RelayLadder

/-! ## Groups and steps -/

theorem lookup_map_addRow (groups : List (Nat × List Row)) (r : Row) (s : Nat) :
    (groups.map fun g => if g.1 == r.step then (g.1, g.2 ++ [r]) else g).lookup s =
      (groups.lookup s).map fun rs => if r.step = s then rs ++ [r] else rs := by
  induction groups with
  | nil => rfl
  | cons g gs ih =>
      obtain ⟨k, rs⟩ := g
      simp only [beq_iff_eq] at ih
      by_cases hs : s = k
      · subst hs
        by_cases hk : s = r.step
        · simp [hk]
        · simp [hk, Ne.symm hk]
      · by_cases hk : k = r.step
        · have hb : (s == r.step) = false := beq_false_of_ne (hk ▸ hs)
          simp [hk, List.lookup_cons, hb, ih]
        · have hb : (s == k) = false := beq_false_of_ne hs
          simp [hk, List.lookup_cons, hb, ih]

/-- Adding a row to the groups adds it at the end of the group of its step. -/
theorem lookup_addToGroup (groups : List (Nat × List Row)) (r : Row) (s : Nat) :
    ((addToGroup groups r).lookup s).getD [] =
      (groups.lookup s).getD [] ++ if r.step = s then [r] else [] := by
  unfold addToGroup
  split
  · rename_i h
    rw [lookup_map_addRow]
    by_cases hs : r.step = s
    · subst hs
      obtain ⟨g, hg, he⟩ := List.any_eq_true.mp h
      have : (groups.lookup r.step).isSome := by
        rw [List.lookup_isSome_iff]
        refine ⟨g, hg, ?_⟩
        rw [beq_iff_eq] at he ⊢
        exact he.symm
      obtain ⟨rs, hrs⟩ := Option.isSome_iff_exists.mp this
      simp [hrs]
    · cases groups.lookup s <;> simp [hs]
  · rename_i h
    have hnone : groups.lookup r.step = none := by
      rw [List.lookup_eq_none_iff]
      intro g hg
      have : g.1 ≠ r.step := fun he => h (List.any_eq_true.mpr ⟨g, hg, by simp [he]⟩)
      rw [bne_iff_ne]
      exact fun he => this he.symm
    rw [List.lookup_append]
    by_cases hs : r.step = s
    · subst hs
      simp [hnone]
    · have hb : (s == r.step) = false := beq_false_of_ne (Ne.symm hs)
      cases hl : groups.lookup s <;> simp [List.lookup_cons, hb, hs]

/-- The group of a step holds the rows of that step, in source order. -/
theorem groupByStep_lookup (rows : List Row) (s : Nat) :
    ((groupByStep rows).lookup s).getD [] = rows.filter (·.step == s) := by
  suffices ∀ groups, ((rows.foldl addToGroup groups).lookup s).getD [] =
      (groups.lookup s).getD [] ++ rows.filter (·.step == s) by simpa [groupByStep] using this []
  induction rows with
  | nil => simp
  | cons r rows ih =>
      intro groups
      rw [List.foldl_cons, ih, lookup_addToGroup, List.filter_cons]
      by_cases hs : r.step = s <;> simp [hs]

theorem mem_insertStep {s t : Nat} {l : List Nat} : t ∈ insertStep s l ↔ t = s ∨ t ∈ l := by
  induction l with
  | nil => simp [insertStep]
  | cons u us ih =>
      unfold insertStep
      split
      · simp
      · split
        · rename_i he
          have : s = u := by simpa using he
          subst this
          simp
        · simp only [List.mem_cons, ih]
          tauto

theorem insertStep_sorted (s : Nat) {l : List Nat} (h : l.Pairwise (· < ·)) :
    (insertStep s l).Pairwise (· < ·) := by
  induction l with
  | nil => simp [insertStep]
  | cons u us ih =>
      rw [List.pairwise_cons] at h
      unfold insertStep
      split
      · rename_i hlt
        refine List.Pairwise.cons (fun t ht => ?_) (List.Pairwise.cons h.1 h.2)
        rcases List.mem_cons.mp ht with rfl | ht
        · exact hlt
        · exact Nat.lt_trans hlt (h.1 t ht)
      · split
        · exact List.Pairwise.cons h.1 h.2
        · rename_i hlt hne
          refine List.Pairwise.cons (fun t ht => ?_) (ih h.2)
          rcases mem_insertStep.mp ht with rfl | ht
          · have : t ≠ u := by simpa using hne
            omega
          · exact h.1 t ht

/-- The steps are ascending and distinct. -/
theorem stepsOf_sorted (rows : List Row) : (stepsOf rows).Pairwise (· < ·) := by
  suffices ∀ l : List Nat, l.Pairwise (· < ·) →
      (rows.foldl (fun acc r => insertStep r.step acc) l).Pairwise (· < ·) from this [] (by simp)
  induction rows with
  | nil => exact fun l h => h
  | cons r rows ih => exact fun l h => ih _ (insertStep_sorted r.step h)

/-- The steps are the steps of the rows. -/
theorem mem_stepsOf {rows : List Row} {s : Nat} : s ∈ stepsOf rows ↔ ∃ r ∈ rows, r.step = s := by
  suffices ∀ l : List Nat, s ∈ rows.foldl (fun acc r => insertStep r.step acc) l ↔
      s ∈ l ∨ ∃ r ∈ rows, r.step = s by simpa [stepsOf] using this []
  induction rows with
  | nil => simp
  | cons r rows ih =>
      intro l
      rw [List.foldl_cons, ih, mem_insertStep]
      simp only [List.mem_cons, exists_eq_or_imp]
      tauto

/-! ## Taps in row order -/

/-- The tap that a row describes, whatever the state: the body of a coil, timer, counter or
arithmetic row whose operands read. -/
def tapOf? (r : Row) : Option NodeBody :=
  (lookupInstruction r.instruction).bind (Assembler.tapBody r)

theorem NodeBody.isTap_of_isCondition {b : NodeBody} (h : b.isCondition = true) :
    b.isTap = false := by
  cases b <;> simp_all [NodeBody.isCondition, NodeBody.isTap]

namespace Assembler

/-- Placing a condition never gives a tap: it gives the condition or a series block. -/
theorem link_not_isTap (a : Assembler) (c : Option String) {body : NodeBody}
    (hb : body.isCondition = true) (l : Link) :
    ((a.keep c body).2.link l (a.keep c body).1).1.body.isTap = false := by
  have hc : (a.keep c body).1.body.isTap = false := NodeBody.isTap_of_isCondition hb
  cases l with
  | load | or => exact hc
  | and =>
      cases hs : a.stack with
      | nil => simpa [link, keep, fresh, hs] using hc
      | cons top rest => simp [link, keep, fresh, hs, join, NodeBody.isTap]

/-- A row that builds something built the tap it describes, if it built a tap, and otherwise
describes none. -/
theorem step_tapOf {a a' : Assembler} {r : Row} {n : Node} (h : a.step r = some (n, a')) :
    tapOf? r = if n.body.isTap then some n.body else none := by
  obtain ⟨i, hi, ⟨l, body, hb, ht, h⟩ | ⟨w, rfl, h⟩ | ⟨body, hb, h⟩⟩ := step_cases h
  · have := link_not_isTap a r.comment (conditionBody_isCondition hb) l
    rw [h] at this
    simp [tapOf?, hi, ht, this]
  · unfold joinLatest at h
    split at h
    · obtain ⟨rfl, -⟩ := Prod.mk.inj (Option.some.inj h)
      simp [tapOf?, hi, tapBody, join, keep, fresh, NodeBody.isTap]
    · simp at h
  · obtain ⟨rfl, -⟩ := Prod.mk.inj h
    simp [tapOf?, hi, hb, tapBody_isTap hb]

theorem tapOf?_of_step_none {a : Assembler} {r : Row} (h : a.step r = none) : tapOf? r = none := by
  unfold step at h
  unfold tapOf?
  split at h
  · rename_i hi
    simp [hi]
  · rename_i i hi
    rw [hi, Option.bind_some]
    cases i with
    | contact | compare | joinBranches => rfl
    | coil | timer | counter | math => simpa using h

end Assembler

theorem assembleRow_taps (acc : Assembler × List Node) (r : Row) :
    (assembleRow acc r).2.map (·.body) = acc.2.map (·.body) ++ (tapOf? r).toList := by
  cases hs : acc.1.step r with
  | none => simp [assembleRow, hs, Assembler.tapOf?_of_step_none hs]
  | some p =>
      obtain ⟨n, a'⟩ := p
      rw [Assembler.step_tapOf hs]
      by_cases ht : n.body.isTap = true <;> simp [assembleRow, hs, ht]

/-- The taps built from rows are the taps the rows describe, in row order. -/
theorem assembleRows_taps (a : Assembler) (rows : List Row) :
    (assembleRows a rows).2.map (·.body) = rows.filterMap tapOf? := by
  suffices ∀ acc : Assembler × List Node, (rows.foldl assembleRow acc).2.map (·.body) =
      acc.2.map (·.body) ++ rows.filterMap tapOf? by simpa [assembleRows] using this (a, [])
  induction rows with
  | nil => simp
  | cons r rows ih =>
      intro acc
      rw [List.foldl_cons, ih, assembleRow_taps, List.filterMap_cons]
      cases tapOf? r <;> simp

/-! ## Regular bodies -/

/-- A body as the builder makes it: a move takes a single source, and no address names a bit
above fifteen. -/
def NodeBody.Regular (b : NodeBody) : Prop :=
  b.problem? = none ∧ ∀ a ∈ b.addresses, ∀ i ∈ a.bitIndex, i ≤ DeviceAddress.maxBitIndex

theorem NodeBody.regular_block (w : Wiring) (cs : List String) : (NodeBody.block w cs).Regular :=
  ⟨rfl, by simp [NodeBody.addresses]⟩

/-- The addresses of arithmetic: its sources that are addresses, and its destination. -/
theorem NodeBody.mem_addresses_math {op : MathOperator} {src : Operand} {src2 : Option Operand}
    {dst a : DeviceAddress} :
    a ∈ (NodeBody.math op src src2 dst).addresses ↔
      a ∈ src.address? ∨ (∃ o ∈ src2, a ∈ o.address?) ∨ a = dst := by
  cases src2 <;> simp [NodeBody.addresses, Option.mem_def, or_assoc]

namespace DeviceAddress

/-- The reader refuses a bit index above fifteen. -/
theorem bitIndex_le_of_ofChars? {cs : List Char} {a : DeviceAddress} (h : ofChars? cs = some a) :
    ∀ i ∈ a.bitIndex, i ≤ maxBitIndex := by
  cases cs with
  | nil => simp [ofChars?] at h
  | cons c rest =>
      simp only [ofChars?, bind, Option.bind_eq_some_iff] at h
      obtain ⟨d, -, x, -, h⟩ := h
      have hfinal : ∀ (bi iz : Option Nat) (r : List Char),
          (if (r.isEmpty && bi.all (· ≤ maxBitIndex)) = true then
            some ({ device := d, number := x.1, bitIndex := bi, indexRegister := iz } : DeviceAddress)
          else none) = some a → ∀ i ∈ a.bitIndex, i ≤ maxBitIndex := by
        intro bi iz r hr
        split at hr
        · rename_i hc
          obtain rfl := Option.some.inj hr
          have := ((Bool.and_eq_true _ _).mp hc).2
          simpa [Option.all_eq_true] using this
        · simp at hr
      -- a bit index or none, then an index register or none, then the check
      split at h
      · obtain ⟨y, -, h⟩ := Option.bind_eq_some_iff.mp h
        split at h
        · split at h
          · rw [Option.bind_some] at h
            exact hfinal _ _ _ h
          · simp at h
        · rw [Option.bind_some] at h
          exact hfinal _ _ _ h
      · rw [Option.bind_some] at h
        split at h
        · split at h
          · rw [Option.bind_some] at h
            exact hfinal _ _ _ h
          · simp at h
        · rw [Option.bind_some] at h
          exact hfinal _ _ _ h

theorem bitIndex_le_of_parse? {s : String} {a : DeviceAddress} (h : parse? s = some a) :
    ∀ i ∈ a.bitIndex, i ≤ maxBitIndex :=
  bitIndex_le_of_ofChars? h

end DeviceAddress

/-- An operand read as an address is the address its text reads as. -/
theorem Operand.parse?_of_parseOpt? {s : Option String} {o : Operand} {a : DeviceAddress}
    (h : Operand.parseOpt? s = some o) (ha : o.address? = some a) :
    s.bind DeviceAddress.parse? = some a := by
  cases s with
  | none => simp [Operand.parseOpt?] at h
  | some t =>
    simp only [Operand.parseOpt?, Operand.parse?] at h
    split at h
    · simp at h
    · split at h
      · obtain rfl := Option.some.inj h
        simp [Operand.address?] at ha
      · split at h
        · obtain rfl := Option.some.inj h
          simp [Operand.address?] at ha
        · obtain ⟨a', ha', rfl⟩ := Option.map_eq_some_iff.mp h
          simp only [Operand.address?, Option.some.injEq] at ha
          simpa [← ha] using ha'

/-- An address that an operand of a row reads as names no bit above fifteen. -/
theorem bitIndex_le_of_operand {row : Row} {a : DeviceAddress}
    (h : ∃ op ∈ row.operands, op.bind DeviceAddress.parse? = some a) :
    ∀ i ∈ a.bitIndex, i ≤ DeviceAddress.maxBitIndex := by
  obtain ⟨op, -, hop⟩ := h
  obtain ⟨s, -, hs⟩ := Option.bind_eq_some_iff.mp hop
  exact DeviceAddress.bitIndex_le_of_parse? hs

namespace Assembler

/-- Every address a condition names is an operand of its row read as an address. -/
theorem conditionBody_addresses {row : Row} {i : Instruction} {body : NodeBody}
    (h : conditionBody row i = some body) :
    ∀ a ∈ body.addresses, ∃ op ∈ row.operands, op.bind DeviceAddress.parse? = some a := by
  cases i with
  | compare l op =>
      simp only [conditionBody, bind, Option.bind_eq_some_iff, pure, Option.some.injEq] at h
      obtain ⟨x, hx, y, hy, rfl⟩ := h
      intro a ha
      obtain ⟨o, ho, hoa⟩ := List.mem_filterMap.mp ha
      rcases List.mem_pair.mp ho with rfl | rfl
      · exact ⟨_, by simp [Row.operands], Operand.parse?_of_parseOpt? hx hoa⟩
      · exact ⟨_, by simp [Row.operands], Operand.parse?_of_parseOpt? hy hoa⟩
  | contact l t =>
      simp only [conditionBody] at h
      obtain ⟨a, ha, rfl⟩ := Option.map_eq_some_iff.mp h
      simpa [NodeBody.addresses] using ⟨row.operand1, by simp [Row.operands], ha⟩
  | joinBranches | coil | timer | counter | math => simp [conditionBody] at h

/-- Every address a tap names is an operand of its row read as an address. -/
theorem tapBody_addresses {row : Row} {i : Instruction} {body : NodeBody}
    (h : tapBody row i = some body) :
    ∀ a ∈ body.addresses, ∃ op ∈ row.operands, op.bind DeviceAddress.parse? = some a := by
  have hops : row.operand1 ∈ row.operands ∧ row.operand2 ∈ row.operands ∧
      row.operand3 ∈ row.operands := by simp [Row.operands]
  cases i with
  | coil t neg | timer t | counter t =>
      simp only [tapBody] at h
      obtain ⟨a, ha, rfl⟩ := Option.map_eq_some_iff.mp h
      simpa [NodeBody.addresses] using ⟨row.operand1, hops.1, ha⟩
  | math op =>
      -- a move reads the first operand into the second; the others read the first two into
      -- the third
      cases op with
      | mov =>
          simp only [tapBody, bind, Option.bind_eq_some_iff, pure, Option.some.injEq] at h
          obtain ⟨src, hs, dst, hd, rfl⟩ := h
          intro a ha
          rcases NodeBody.mem_addresses_math.mp ha with hoa | ⟨o, ho, -⟩ | rfl
          · exact ⟨_, hops.1, Operand.parse?_of_parseOpt? hs hoa⟩
          · simp at ho
          · exact ⟨_, hops.2.1, Option.bind_eq_some_iff.mpr hd⟩
      | add | sub | mul | div =>
          simp only [tapBody, bind, Option.bind_eq_some_iff, pure, Option.some.injEq] at h
          obtain ⟨src, hs, dst, hd, rfl⟩ := h
          intro a ha
          rcases NodeBody.mem_addresses_math.mp ha with hoa | ⟨o, ho, hoa⟩ | rfl
          · exact ⟨_, hops.1, Operand.parse?_of_parseOpt? hs hoa⟩
          · exact ⟨_, hops.2.1, Operand.parse?_of_parseOpt? ho hoa⟩
          · exact ⟨_, hops.2.2, Option.bind_eq_some_iff.mpr hd⟩
  | contact | compare | joinBranches => simp [tapBody] at h

/-- A move the builder makes takes a single source. -/
theorem tapBody_problem? {row : Row} {i : Instruction} {body : NodeBody}
    (h : tapBody row i = some body) : body.problem? = none := by
  cases i with
  | coil t neg | timer t | counter t =>
      simp only [tapBody] at h
      obtain ⟨a, -, rfl⟩ := Option.map_eq_some_iff.mp h
      rfl
  | math op =>
      cases op <;> simp only [tapBody, bind, Option.bind_eq_some_iff, pure, Option.some.injEq] at h <;>
        obtain ⟨src, -, dst, -, rfl⟩ := h <;> rfl
  | contact | compare | joinBranches => simp [tapBody] at h

theorem conditionBody_regular {row : Row} {i : Instruction} {body : NodeBody}
    (h : conditionBody row i = some body) : body.Regular := by
  refine ⟨?_, fun a ha => bitIndex_le_of_operand (conditionBody_addresses h a ha)⟩
  -- only arithmetic can have a problem, and a condition is no arithmetic
  have hc := conditionBody_isCondition h
  cases body <;> simp_all [NodeBody.isCondition, NodeBody.problem?]

theorem tapBody_regular {row : Row} {i : Instruction} {body : NodeBody}
    (h : tapBody row i = some body) : body.Regular :=
  ⟨tapBody_problem? h, fun a ha => bitIndex_le_of_operand (tapBody_addresses h a ha)⟩

/-! ## Properties of every built node -/

/-- A property that every node rows can build has: the conditions and taps they describe,
under any id and with the row's comment, and every block. -/
structure Keeps (P : Node → Prop) (rows : List Row) : Prop where
  condition : ∀ r ∈ rows, ∀ i body id, lookupInstruction r.instruction = some i →
    conditionBody r i = some body → P { id, comment := r.comment, body }
  tap : ∀ r ∈ rows, ∀ i body id, lookupInstruction r.instruction = some i →
    tapBody r i = some body → P { id, comment := r.comment, body }
  block : ∀ id w cs, P { id, body := .block w cs }

/-- Placing a condition keeps it in the arena, and in series a block after it; the node it
gives is the condition or that block. -/
theorem mem_link_nodes {a a' : Assembler} {c : Option String} {body : NodeBody} {n : Node}
    (l : Link) (h : (a.keep c body).2.link l (a.keep c body).1 = (n, a')) :
    (∀ m ∈ a'.nodes, m ∈ a.nodes ∨ m = (a.keep c body).1 ∨ ∃ id w cs, m = { id, body := .block w cs }) ∧
      (n = (a.keep c body).1 ∨ ∃ id w cs, n = { id, body := .block w cs }) := by
  have hn : n = ((a.keep c body).2.link l (a.keep c body).1).1 := by rw [h]
  have ha : a' = ((a.keep c body).2.link l (a.keep c body).1).2 := by rw [h]
  subst hn ha
  have hks : (a.keep c body).2.stack = a.stack := rfl
  cases l with
  | load | or =>
      refine ⟨fun m hm => ?_, .inl rfl⟩
      simp only [link, keep_nodes, List.mem_append, List.mem_singleton] at hm
      exact hm.imp_right .inl
  | and =>
      cases hs : a.stack with
      | nil =>
          refine ⟨fun m hm => ?_, by simp [link, hks, hs]⟩
          simp only [link, hks, hs, keep_nodes, List.mem_append, List.mem_singleton] at hm
          exact hm.imp_right .inl
      | cons top rest =>
          refine ⟨fun m hm => ?_, .inr ⟨_, _, _, by simp only [link, hks, hs]; rfl⟩⟩
          simp only [link, hks, hs, join, keep_nodes, List.mem_append, List.mem_singleton] at hm
          rcases hm with (hm | rfl) | rfl
          · exact .inl hm
          · exact .inr (.inl rfl)
          · exact .inr (.inr ⟨_, _, _, rfl⟩)

namespace Keeps

variable {P : Node → Prop} {rows : List Row}

theorem mono {rows' : List Row} (hk : Keeps P rows) (hsub : ∀ r ∈ rows', r ∈ rows) :
    Keeps P rows' :=
  ⟨fun r hr => hk.condition r (hsub r hr), fun r hr => hk.tap r (hsub r hr), hk.block⟩

/-- A row builds only nodes with the property: the arena keeps it and the node built has it. -/
theorem step (hk : Keeps P rows) {a a' : Assembler} {r : Row} (hr : r ∈ rows) {n : Node}
    (h : a.step r = some (n, a')) (ha : ∀ m ∈ a.nodes, P m) : (∀ m ∈ a'.nodes, P m) ∧ P n := by
  obtain ⟨i, hi, ⟨l, body, hb, -, h⟩ | ⟨w, -, h⟩ | ⟨body, hb, h⟩⟩ := step_cases h
  · have hc : P (a.keep r.comment body).1 := hk.condition r hr i body _ hi hb
    obtain ⟨hnodes, hn⟩ := mem_link_nodes l h
    refine ⟨fun m hm => ?_, ?_⟩
    · rcases hnodes m hm with hm | rfl | ⟨id, w, cs, rfl⟩
      · exact ha m hm
      · exact hc
      · exact hk.block id w cs
    · rcases hn with rfl | ⟨id, w, cs, rfl⟩
      · exact hc
      · exact hk.block id w cs
  · unfold joinLatest at h
    split at h
    · obtain ⟨rfl, rfl⟩ := Prod.mk.inj (Option.some.inj h)
      refine ⟨fun m hm => ?_, hk.block _ _ _⟩
      simp only [join, keep_nodes, List.mem_append, List.mem_singleton] at hm
      rcases hm with hm | rfl
      · exact ha m hm
      · exact hk.block _ _ _
    · simp at h
  · obtain ⟨rfl, rfl⟩ := Prod.mk.inj h
    exact ⟨ha, hk.tap r hr i body _ hi hb⟩

theorem foldPending (hk : Keeps P rows) (a : Assembler) (os : List Node)
    (ha : ∀ m ∈ a.nodes, P m) : ∀ m ∈ (a.foldPending os).nodes, P m := by
  induction os generalizing a with
  | nil => exact ha
  | cons o os ih =>
      rw [Assembler.foldPending]
      split
      · exact ih _ ha
      · apply ih
        intro m hm
        simp only [List.mem_append, List.mem_singleton] at hm
        rcases hm with hm | rfl
        · exact ha m hm
        · exact hk.block _ _ _

/-- Every node of the arena of a finished rung and every tap has the property. -/
theorem assembleRows (hk : Keeps P rows) (a : Assembler) :
    (∀ m ∈ (assembleRows a.reset rows).1.result.2.nodes, P m) ∧
      ∀ t ∈ (assembleRows a.reset rows).2, P t := by
  -- the rows are taken one by one, each a row of the whole list
  have hrows : ∀ rs : List Row, (∀ r ∈ rs, r ∈ rows) → ∀ acc : Assembler × List Node,
      (∀ m ∈ acc.1.nodes, P m) → (∀ t ∈ acc.2, P t) →
      (∀ m ∈ (rs.foldl assembleRow acc).1.nodes, P m) ∧ ∀ t ∈ (rs.foldl assembleRow acc).2, P t := by
    intro rs
    induction rs with
    | nil => exact fun _ acc ha ht => ⟨ha, ht⟩
    | cons r rs ih =>
        intro hsub acc ha ht
        rw [List.foldl_cons]
        apply ih fun r' hr' => hsub r' (List.mem_cons_of_mem _ hr')
        · cases hs : acc.1.step r with
          | none => simpa [RelayLadder.assembleRow, hs] using ha
          | some p => simpa [RelayLadder.assembleRow, hs] using (hk.step (hsub r List.mem_cons_self) hs ha).1
        · cases hs : acc.1.step r with
          | none => simpa [RelayLadder.assembleRow, hs] using ht
          | some p =>
              obtain ⟨n, a'⟩ := p
              have hn := (hk.step (hsub r List.mem_cons_self) hs ha).2
              intro t htm
              simp only [RelayLadder.assembleRow, hs] at htm
              split at htm
              · rcases List.mem_append.mp htm with htm | htm
                · exact ht t htm
                · exact (List.mem_singleton.mp htm) ▸ hn
              · exact ht t htm
  obtain ⟨ha, ht⟩ := hrows rows (fun r hr => hr) (a.reset, []) (by simp [reset]) (by simp)
  exact ⟨hk.foldPending _ _ (by simpa [result, RelayLadder.assembleRows] using ha), ht⟩

/-- Every node of the shape of the network of a step has the property. -/
theorem shape (hk : Keeps P rows) (a : Assembler) (step : Int) :
    ∃ s : Shape, (buildNetwork a step rows).1 = s.network step (firstComment rows) ∧
      ∀ m ∈ s.logic ++ s.taps, P m := by
  obtain ⟨s, hs, htaps, hlogic, -, -⟩ := buildNetwork_shape a step rows
  obtain ⟨harena, htap⟩ := hk.assembleRows a
  refine ⟨s, hs, fun m hm => ?_⟩
  rcases List.mem_append.mp hm with hm | hm
  · exact harena m (hlogic m hm)
  · exact htap m (htaps ▸ hm)

end Keeps

/-- Every body that rows build is regular. -/
theorem keeps_regular (rows : List Row) : Keeps (·.body.Regular) rows where
  condition _ _ _ _ _ _ hb := conditionBody_regular hb
  tap _ _ _ _ _ _ hb := tapBody_regular hb
  block _ w cs := NodeBody.regular_block w cs

/-- Every body of the network of a step is regular. -/
theorem buildNetwork_regular (a : Assembler) (step : Int) (rows : List Row) :
    ∀ m ∈ (buildNetwork a step rows).1.nodes, m.body.Regular := by
  obtain ⟨s, hs, hreg⟩ := (keeps_regular rows).shape a step
  rw [hs]
  intro m hm
  -- a node of the network has the body of a node of the shape
  obtain ⟨m', hm', he⟩ := List.mem_map.mp (s.bodies_network step _ ▸ List.mem_map_of_mem hm)
  rw [← he]
  exact hreg m' hm'

end Assembler

/-! ## The networks of a program -/

/-- The network built for step `st` of a listing: the network of a shape, named after the
step, with the first comment of the step's rows, whose taps are the ones the step's rows
describe. -/
def StepNetwork (rows : List Row) (N : Network) (st : Nat) : Prop :=
  ∃ s : Shape, N = s.network st (firstComment (rows.filter (·.step == st))) ∧
    s.taps.map (·.body) = (rows.filter (·.step == st)).filterMap tapOf?

theorem StepNetwork.step_eq {rows : List Row} {N : Network} {st : Nat}
    (h : StepNetwork rows N st) : N.step = st := by
  obtain ⟨s, rfl, -⟩ := h
  rfl

theorem exists_of_forall₂ {α β : Type} {R : α → β → Prop} {l₁ : List α} {l₂ : List β}
    (h : List.Forall₂ R l₁ l₂) {a : α} (ha : a ∈ l₁) : ∃ b ∈ l₂, R a b := by
  induction h with
  | nil => simp at ha
  | cons hr _ ih =>
      rcases List.mem_cons.mp ha with rfl | ha
      · exact ⟨_, List.mem_cons_self, hr⟩
      · obtain ⟨b, hb, hab⟩ := ih ha
        exact ⟨b, List.mem_cons_of_mem _ hb, hab⟩

/-- The networks built for the steps taken so far: one per step in order, each with regular
bodies, the ids distinct across all of them and numbered up to the counter. -/
structure Assembled (rows : List Row) (done : List Nat) (acc : List Network × Assembler) :
    Prop where
  networks : List.Forall₂ (StepNetwork rows) acc.1 done
  regular : ∀ N ∈ acc.1, ∀ m ∈ N.nodes, m.body.Regular
  ids_nodup : (acc.1.flatMap (·.ids)).Nodup
  numbered : ∀ N ∈ acc.1, ∀ i ∈ N.ids, ∃ k, i = Assembler.nodeId k ∧ k ≤ acc.2.count

namespace Assembled

variable {rows : List Row}

/-- The network of one more step keeps the invariant: its ids are numbered above every id
so far. -/
theorem addNetwork {done : List Nat} {acc : List Network × Assembler} (h : Assembled rows done acc)
    (st : Nat) : Assembled rows (done ++ [st]) (RelayLadder.addNetwork (groupByStep rows) acc st) := by
  obtain ⟨s, hs, htaps, -, hle, hnum⟩ :=
    Assembler.buildNetwork_shape acc.2 st (rows.filter (·.step == st))
  have hadd : RelayLadder.addNetwork (groupByStep rows) acc st =
      (acc.1 ++ [(buildNetwork acc.2 st (rows.filter (·.step == st))).1],
        (buildNetwork acc.2 st (rows.filter (·.step == st))).2) := by
    simp [RelayLadder.addNetwork, groupByStep_lookup]
  have hids : ∀ i ∈ (buildNetwork acc.2 st (rows.filter (·.step == st))).1.ids,
      ∃ k, i = Assembler.nodeId k ∧ acc.2.count < k ∧
        k ≤ (buildNetwork acc.2 st (rows.filter (·.step == st))).2.count := by
    intro i hi
    rw [hs, s.ids_network] at hi
    obtain ⟨m, hm, rfl⟩ := List.mem_map.mp hi
    exact hnum m hm
  rw [hadd]
  refine ⟨List.rel_append h.networks (.cons ⟨s, hs, ?_⟩ .nil), ?_, ?_, ?_⟩
  · rw [htaps, assembleRows_taps]
  · intro N hN m hm
    rcases List.mem_append.mp hN with hN | hN
    · exact h.regular N hN m hm
    · obtain rfl := List.mem_singleton.mp hN
      exact Assembler.buildNetwork_regular _ _ _ m hm
  · rw [List.flatMap_append, List.flatMap_singleton, List.nodup_append]
    refine ⟨h.ids_nodup, hs ▸ s.ids_network_nodup _ _, ?_⟩
    -- the ids so far are numbered up to the counter, the new ones above it
    intro i hi j hj hij
    obtain ⟨N, hN, hiN⟩ := List.mem_flatMap.mp hi
    obtain ⟨k, rfl, hk⟩ := h.numbered N hN i hiN
    obtain ⟨k', rfl, hk', -⟩ := hids j hj
    have := Assembler.nodeId_injective hij
    omega
  · intro N hN i hi
    rcases List.mem_append.mp hN with hN | hN
    · obtain ⟨k, rfl, hk⟩ := h.numbered N hN i hi
      exact ⟨k, rfl, Nat.le_trans hk hle⟩
    · obtain rfl := List.mem_singleton.mp hN
      obtain ⟨k, rfl, -, hk⟩ := hids i hi
      exact ⟨k, rfl, hk⟩

theorem foldl_addNetwork (sts : List Nat) {done : List Nat} {acc : List Network × Assembler}
    (h : Assembled rows done acc) :
    Assembled rows (done ++ sts) (sts.foldl (RelayLadder.addNetwork (groupByStep rows)) acc) := by
  induction sts generalizing done acc with
  | nil => simpa using h
  | cons st sts ih =>
      rw [List.foldl_cons]
      simpa using ih (h.addNetwork st)

end Assembled

/-- The networks of a program are built one per step, in the order of the steps. -/
theorem assembled_buildNetworks (rows : List Row) :
    Assembled rows (stepsOf rows)
      ((stepsOf rows).foldl (addNetwork (groupByStep rows)) ([], {})) := by
  simpa using (Assembled.foldl_addNetwork (stepsOf rows)
    (⟨.nil, by simp, by simp, by simp⟩ : Assembled rows [] ([], {})))

end RelayLadder
