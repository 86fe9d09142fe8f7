import RelayLadder.Proofs.Canonical
import RelayLadder.Proofs.Shape
import RelayLadder.Proofs.Program
import RelayLadder.Listing.Writer

/-! # The lines a rung is written as

A logic tree is written as the stack program that rebuilds it (`Branch.lines`): a leaf is
loaded; a block loads its first branch and then joins its second, with `AND` when the block is
a series and the second branch is a condition, else by loading that branch and joining the two
latest branches with `ANDB` or `ORB`. The writer's walk through the arena of a network computes
exactly this program for its tree, and the taps follow, one line each.

Every node the builder keeps from rows read out of a text is `Node.Writable`: it still sits in
the first cell, its comment is absent or a clean text, its body is regular and only a plain
output coil is negated. A line written from such a node is clean, so it reads back as a row
(`ListingLine.row`), and one lemma per kind of line says what the assembler does with that row:
it builds the node again under the next id, or joins the two latest branches.
-/

namespace RelayLadder

/-! ## Nodes that a line writes whole -/

/-- A node as the builder keeps it, which its line writes whole. -/
structure Node.Writable (n : Node) : Prop where
  cell_eq : n.cell = {}
  comment_clean : ∀ c ∈ n.comment, Text.Clean c ∧ c ≠ ""
  block_comment : n.body.isBlock = true → n.comment = none
  regular : n.body.Regular
  negated_out : ∀ t a, n.body = .coil t a true → t = .out

theorem NodeBody.isBlock_of_isCondition {b : NodeBody} (h : b.isCondition = true) :
    b.isBlock = false := by
  cases b <;> simp_all [NodeBody.isCondition, NodeBody.isBlock]

namespace Assembler

theorem tapBody_coil {row : Row} {i : Instruction} {t : CoilType} {a : DeviceAddress} {neg : Bool}
    (h : tapBody row i = some (.coil t a neg)) : i = .coil t neg := by
  cases i with
  | coil t' neg' =>
    obtain ⟨a', -, he⟩ := Option.map_eq_some_iff.mp h
    cases he
    rfl
  | timer | counter =>
    obtain ⟨a', -, he⟩ := Option.map_eq_some_iff.mp h
    cases he
  | math op =>
    cases op <;>
      simp only [tapBody, bind, Option.bind_eq_some_iff, pure, Option.some.injEq] at h <;>
      obtain ⟨_, -, _, -, he⟩ := h <;> cases he
  | contact | compare | joinBranches => simp [tapBody] at h

/-- Rows whose comments are clean build only writable nodes. -/
theorem keeps_writable {rows : List Row}
    (hrows : ∀ r ∈ rows, ∀ c ∈ r.comment, Text.Clean c ∧ c ≠ "") : Keeps Node.Writable rows where
  condition r hr _ _ _ _ hb := by
    have hc := conditionBody_isCondition hb
    refine ⟨rfl, hrows r hr, fun h => ?_, conditionBody_regular hb, fun t a he => ?_⟩
    · simp [NodeBody.isBlock_of_isCondition hc] at h
    · simp only at he
      simp [he, NodeBody.isCondition] at hc
  tap r hr _ _ _ hi hb := by
    have ht := tapBody_isTap hb
    refine ⟨rfl, hrows r hr, fun h => ?_, tapBody_regular hb, fun t a he => ?_⟩
    · simp [NodeBody.isBlock_of_isTap ht] at h
    · simp only at he
      rw [he] at hb
      exact coil_of_lookupInstruction ((tapBody_coil hb) ▸ hi)
  block _ w cs := ⟨rfl, by simp, fun _ => rfl, NodeBody.regular_block w cs, fun _ _ he => by cases he⟩

end Assembler

/-! ## Rows read back from lines -/

namespace ListingLine

/-- A field as a row holds it: absent when empty. -/
def present (s : String) : Option String := if s.isEmpty then none else some s

/-- The row that a line reads back as, with its number and step. -/
def row (l : ListingLine) (seq step : Nat) : Row where
  sequence := seq
  step := step
  instruction := Text.upper l.instruction
  operand1 := present l.operand1
  operand2 := present l.operand2
  operand3 := present l.operand3
  comment := present l.comment

/-- A line whose fields a record carries whole. -/
def Clean (l : ListingLine) : Prop :=
  ∀ f ∈ [l.instruction, l.operand1, l.operand2, l.operand3, l.comment], Text.Clean f

@[simp] theorem present_empty : present "" = none := rfl

theorem present_of_ne {s : String} (h : s ≠ "") : present s = some s := by
  simp [present, h]

/-- An absent comment is written empty and read back absent. -/
theorem present_comment {c : Option String} (h : ∀ x ∈ c, Text.Clean x ∧ x ≠ "") :
    present (c.getD "") = c := by
  cases c with
  | none => rfl
  | some x => exact present_of_ne (h x rfl).2

/-- Every field of the record of a clean line is clean. -/
theorem clean_fields {l : ListingLine} (hl : l.Clean) (seq step : Nat) :
    ∀ g ∈ [toString seq, toString (step : Int), l.instruction, l.operand1, l.operand2,
      l.operand3, l.comment], Text.Clean g := by
  intro g hg
  rcases List.mem_cons.mp hg with rfl | hg
  · exact Text.clean_of_printable (Text.printable_toString seq)
  rcases List.mem_cons.mp hg with rfl | hg
  · exact Text.clean_of_printable (Text.printable_toString step)
  · exact hl g hg

/-- The record of a clean line with an instruction reads back as its row. -/
theorem parse?_record {l : ListingLine} (hl : l.Clean) (hi : l.instruction ≠ "") (seq step : Nat) :
    Row.parse? (Text.Delimited.writeRecord [toString seq, toString (step : Int), l.instruction,
      l.operand1, l.operand2, l.operand3, l.comment]) = some (l.row seq step) := by
  have hnum : toString (step : Int) = toString step := rfl
  rw [Row.parse?_writeRecord (by simp) (clean_fields hl seq step)]
  simp only [Row.ofFields?, hnum, Row.asciiNumber?_toString, bind, Option.bind_some]
  simp [hi, Row.field?, row, present]

end ListingLine

/-! ## The lines of a branch -/

namespace Branch

/-- The lines that load a branch as one new branch of the stack. -/
def lines : Branch → Except ListingError (List ListingLine)
  | leaf n => (fun l => [l]) <$> conditionLine "LOAD" n
  | join _ w f s => do
    let lf ← f.lines
    if w == .series && !s.root.body.isBlock then
      let l ← conditionLine "AND" s.root
      pure (lf ++ [l])
    else
      let ls ← s.lines
      pure (lf ++ ls ++ [joinLine w])

theorem conditionLine_placeAt (pre : String) (n : Node) (c : Cell) :
    conditionLine pre (n.placeAt c) = conditionLine pre n := rfl

/-- The lines do not depend on where layout puts the nodes. -/
theorem lines_place (b : Branch) (c : Cell) : (b.place c).lines = b.lines := by
  induction b generalizing c with
  | leaf n => rfl
  | join n w f s ihf ihs =>
    simp only [place, lines, ihf, ihs, root_place, conditionLine_placeAt]
    rfl

/-- The writer's walk from the root of a well-formed branch whose nodes resolve, to a depth no
less than the branch's, loads the branch: it gives the branch's lines, and says they load. -/
theorem loadLines_root {arena : List Node} {b : Branch} (hwf : b.WF) (hres : b.Resolves arena)
    {d : Nat} (hd : b.depth ≤ d) {ls : List ListingLine} (hl : b.lines = .ok ls) :
    loadLines arena d b.root = .ok (ls, true) := by
  induction b generalizing d ls with
  | leaf n =>
    obtain ⟨d, rfl⟩ : ∃ d', d = d' + 1 := ⟨d - 1, by simp [depth] at hd; omega⟩
    cases hc : conditionLine "LOAD" n with
    | error e => simp [lines, hc] at hl
    | ok l =>
      obtain rfl : [l] = ls := by simpa [lines, hc] using hl
      have hnb := NodeBody.isBlock_of_isCondition hwf
      rw [root_leaf]
      unfold loadLines
      split
      · rename_i heq
        rw [heq] at hnb
        simp [NodeBody.isBlock] at hnb
      · simp [hc, bind, Except.bind, pure, Except.pure]
  | join n w f s ihf ihs =>
    obtain ⟨hw, hf, hs⟩ := hwf
    obtain ⟨d, rfl⟩ : ∃ d', d = d' + 1 := ⟨d - 1, by simp [depth] at hd; omega⟩
    have hdf : f.depth ≤ d := by simp [depth] at hd; omega
    have hds : s.depth ≤ d := by simp [depth] at hd; omega
    have hresf : f.Resolves arena := fun m hm => hres m (by simp [hm])
    have hress : s.Resolves arena := fun m hm => hres m (by simp [hm])
    have hkids : [f.root.id, s.root.id].filterMap (lookupNode arena) = [f.root, s.root] := by
      simp [hresf _ f.root_mem_nodes, hress _ s.root_mem_nodes]
    cases hfl : f.lines with
    | error e => simp [lines, hfl, bind, Except.bind] at hl
    | ok lf =>
      have hfirst := ihf hf hresf hdf hfl
      unfold loadLines
      rw [root_join, hw]
      simp only [hkids, List.foldlM_cons, List.foldlM_nil, Bool.not_false, if_true, hfirst]
      -- the second branch is joined by `AND` or loaded and joined as the block says
      by_cases hser : (w == .series && !s.root.body.isBlock) = true
      · cases hcl : conditionLine "AND" s.root with
        | error e => simp [lines, hfl, hser, hcl, bind, Except.bind] at hl
        | ok l =>
          obtain rfl : lf ++ [l] = ls := by
            simpa [lines, hfl, hser, hcl, bind, Except.bind, pure, Except.pure] using hl
          simp [hser, bind, Except.bind, pure, Except.pure]
      · cases hsl : s.lines with
        | error e => simp [lines, hfl, hser, hsl, bind, Except.bind] at hl
        | ok lsec =>
          obtain rfl : lf ++ lsec ++ [joinLine w] = ls := by
            simpa [lines, hfl, hser, hsl, bind, Except.bind, pure, Except.pure] using hl
          simp [hser, ihs hs hress hds hsl, bind, Except.bind, pure, Except.pure]

theorem conditionLine_ok {n : Node} (h : n.body.isCondition = true) (pre : String) :
    ∃ l, conditionLine pre n = .ok l := by
  unfold conditionLine
  split
  · exact ⟨_, rfl⟩
  · exact ⟨_, rfl⟩
  · rename_i hc hcmp
    cases hb : n.body <;> simp_all [NodeBody.isCondition]

/-- A well-formed branch can be written: all its leaves are conditions. -/
theorem lines_ok {b : Branch} (hwf : b.WF) : ∃ ls, b.lines = .ok ls := by
  induction b with
  | leaf n =>
    obtain ⟨l, hl⟩ := conditionLine_ok hwf "LOAD"
    exact ⟨[l], by simp [lines, hl, Functor.map, Except.map]⟩
  | join n w f s ihf ihs =>
    obtain ⟨-, hf, hs⟩ := hwf
    obtain ⟨lf, hlf⟩ := ihf hf
    obtain ⟨ls, hls⟩ := ihs hs
    by_cases hser : (w == .series && !s.root.body.isBlock) = true
    · -- a second branch that is no block is a leaf, hence a condition
      obtain ⟨m, rfl⟩ : ∃ m, s = leaf m := by
        cases s with
        | leaf m => exact ⟨m, rfl⟩
        | join m w' f' s' =>
          simp only [wf_join] at hs
          simp [hs.1, NodeBody.isBlock] at hser
      obtain ⟨l, hl⟩ := conditionLine_ok hs "AND"
      simp only [root_leaf, Bool.and_eq_true, beq_iff_eq, Bool.not_eq_eq_eq_not, Bool.not_true] at hser
      exact ⟨lf ++ [l], by simp [lines, hlf, hser, hl, bind, Except.bind, pure, Except.pure]⟩
    · exact ⟨lf ++ ls ++ [joinLine w],
        by simp [lines, hlf, hser, hls, bind, Except.bind, pure, Except.pure]⟩

end Branch

/-! ## The lines of a network -/

theorem tapLine_ok {n : Node} (h : n.body.isTap = true) : ∃ l, tapLine n = .ok l := by
  obtain ⟨id, comment, cell, body⟩ := n
  cases body with
  | coil | timer | counter => exact ⟨_, rfl⟩
  | math op src src2 dst => cases op <;> exact ⟨_, rfl⟩
  | contact | comparison | block => simp [NodeBody.isTap] at h

namespace Shape

variable (s : Shape) (step : Int) (comment : Option String)

theorem mapM_tapLine_placedTaps : s.placedTaps.mapM tapLine = s.taps.mapM tapLine := by
  conv => rhs; rw [← List.zipIdx_map_fst 0 s.taps]
  simp only [placedTaps, List.mapM_map]
  rfl

/-- A network is written as the lines of its tree, then a line for each tap. -/
theorem networkLines_network {tree taps : List ListingLine}
    (htree : s.tree.elim (.ok []) Branch.lines = .ok tree) (htaps : s.taps.mapM tapLine = .ok taps) :
    networkLines (s.network step comment) = .ok (tree ++ taps) := by
  have htaps' : (s.network step comment).taps.mapM tapLine = .ok taps := by
    rw [taps_network, mapM_tapLine_placedTaps, htaps]
  unfold networkLines
  rw [root?_network]
  cases h : s.tree with
  | none =>
    obtain rfl : tree = [] := by simpa [h] using htree.symm
    simp [htaps', bind, Except.bind, pure, Except.pure]
  | some b =>
    have hb : b.lines = .ok tree := by simpa [h] using htree
    have hwf : b.WF := s.tree_wf b h
    have hnd : (b.nodes.map (·.id)).Nodup := by simpa [logic, h] using s.logic_ids_nodup
    have hmem : ∀ m ∈ (b.place {}).nodes, m ∈ (s.network step comment).nodes := fun m hm =>
      (s.mem_network step comment).mpr (.inl (by simpa [placedTree, h, Branch.nodes_place] using hm))
    have hres : (b.place {}).Resolves (s.network step comment).nodes := fun m hm =>
      lookupNode_of_mem (s.ids_network_nodup step comment) (hmem m hm)
    -- the walk is deep enough: the tree is part of the network's nodes
    have hdepth : (b.place {}).depth ≤ arenaDepth (s.network step comment).nodes := by
      have hlen : (b.place {}).nodes.length ≤ (s.network step comment).nodes.length := by
        simp [network, placedTree, h, Branch.nodes_place]
      have := (b.place {}).depth_le_length
      simp only [arenaDepth]
      omega
    have hload := Branch.loadLines_root (Branch.wf_place hwf {}) hres hdepth
      (by rw [Branch.lines_place]; exact hb)
    rw [Branch.root_place] at hload
    simp [hload, htaps', bind, Except.bind, pure, Except.pure, Functor.map, Except.map]

end Shape

/-! ## What the assembler does with each line -/

theorem DeviceAddress.format_ne_empty (a : DeviceAddress) : a.format ≠ "" := by
  intro h
  have := congrArg String.toList h
  simp [DeviceAddress.toList_format] at this

theorem Operand.text_ne_empty (o : Operand) : o.text ≠ "" := by
  intro h
  have := congrArg String.toList h
  cases o with
  | address a => simp [Operand.text, DeviceAddress.toList_format] at this
  | immediate v =>
    cases v with
    | ofNat n =>
      rw [Operand.text, Int.ofNat_eq_natCast, Text.toList_toString_ofNat] at this
      exact Nat.toDigits_ne_nil this
    | negSucc n =>
      rw [Operand.text, Text.toList_toString_negSucc] at this
      simp at this

/-- The addresses of an operand of a regular body name no bit above fifteen. -/
theorem NodeBody.Regular.operand {b : NodeBody} (h : b.Regular) {o : Operand}
    (ho : ∀ a ∈ o.address?, a ∈ b.addresses) :
    ∀ a ∈ o.address?, ∀ i ∈ a.bitIndex, i ≤ DeviceAddress.maxBitIndex :=
  fun a ha => h.2 a (ho a ha)

namespace Assembler

variable {a : Assembler} (seq st : Nat)

/-- The row of a condition line, `LOAD` or `AND`, builds the condition again with its comment,
keeps it under the next id and links it as its mnemonic says. -/
theorem step_conditionLine {pre : String} {lk : Link}
    (hpre : pre = "LOAD" ∧ lk = .load ∨ pre = "AND" ∧ lk = .and) {n : Node}
    (hcomment : ∀ c ∈ n.comment, Text.Clean c ∧ c ≠ "") (hreg : n.body.Regular) {l : ListingLine}
    (hl : conditionLine pre n = .ok l) :
    a.step (l.row seq st) =
      some ((a.keep n.comment n.body).2.link lk (a.keep n.comment n.body).1) := by
  obtain ⟨id, comment, cell, body⟩ := n
  simp only at hcomment hreg ⊢
  cases body with
  | contact t addr =>
    obtain rfl := (Except.ok.inj hl.symm)
    have haddr := DeviceAddress.parse?_format (hreg.2 addr (by simp [NodeBody.addresses]))
    have hlookup : lookupInstruction (Text.upper (pre ++ t.suffix)) = some (.contact lk t) := by
      rcases hpre with ⟨rfl, rfl⟩ | ⟨rfl, rfl⟩
      · exact (lookupInstruction_contact t).1
      · exact (lookupInstruction_contact t).2
    simp [step, ListingLine.row, hlookup, conditionBody,
      ListingLine.present_of_ne (DeviceAddress.format_ne_empty addr), haddr,
      ListingLine.present_comment hcomment]
  | comparison op x y =>
    obtain rfl := (Except.ok.inj hl.symm)
    have hx := Operand.parse?_text (hreg.operand fun a ha =>
      List.mem_filterMap.mpr ⟨x, by simp, ha⟩)
    have hy := Operand.parse?_text (hreg.operand fun a ha =>
      List.mem_filterMap.mpr ⟨y, by simp, ha⟩)
    have hlookup : lookupInstruction
        (Text.upper ((if pre = "LOAD" then "LD" else pre) ++ op.symbol)) = some (.compare lk op) := by
      rcases hpre with ⟨rfl, rfl⟩ | ⟨rfl, rfl⟩
      · rw [if_pos rfl]
        exact (lookupInstruction_compare op).1
      · rw [if_neg (by decide)]
        exact (lookupInstruction_compare op).2
    simp [step, ListingLine.row, hlookup, conditionBody,
      ListingLine.present_of_ne (Operand.text_ne_empty x),
      ListingLine.present_of_ne (Operand.text_ne_empty y), Operand.parseOpt?, hx, hy,
      ListingLine.present_comment hcomment]
  | coil | timer | counter | math | block => simp [conditionLine] at hl

/-- The row of a condition line that loads builds the condition again under the next id, in the
first cell, as a new branch. -/
theorem step_load {n : Node} (hcomment : ∀ c ∈ n.comment, Text.Clean c ∧ c ≠ "")
    (hreg : n.body.Regular) {l : ListingLine} (hl : conditionLine "LOAD" n = .ok l) :
    a.step (l.row seq st) = some ({ n with id := a.nextId, cell := {} },
      { a with stack := { n with id := a.nextId, cell := {} } :: a.stack,
               nodes := a.nodes ++ [{ n with id := a.nextId, cell := {} }], count := a.count + 1 }) := by
  rw [step_conditionLine seq st (.inl ⟨rfl, rfl⟩) hcomment hreg hl]
  simp [keep, fresh, link]

/-- The row of a condition line that joins in series builds the condition again under the next
id, in the first cell, and joins it to the latest branch in a series block. -/
theorem step_and {n : Node} (hcomment : ∀ c ∈ n.comment, Text.Clean c ∧ c ≠ "")
    (hreg : n.body.Regular) {l : ListingLine} (hl : conditionLine "AND" n = .ok l) {top : Node}
    {rest : List Node} (hs : a.stack = top :: rest) :
    a.step (l.row seq st) = some ({ id := nodeId (a.count + 2), body := .block .series [top.id, a.nextId] },
      { a with stack := { id := nodeId (a.count + 2), body := .block .series [top.id, a.nextId] } :: rest,
               nodes := a.nodes ++ [{ n with id := a.nextId, cell := {} },
                 { id := nodeId (a.count + 2), body := .block .series [top.id, a.nextId] }],
               count := a.count + 2 }) := by
  rw [step_conditionLine seq st (.inr ⟨rfl, rfl⟩) hcomment hreg hl]
  simp [keep, fresh, link, join, nextId, hs, Nat.add_assoc]

/-- The row of a join line joins the two latest branches. -/
theorem step_joinLine (w : Wiring) {newer older : Node} {rest : List Node}
    (hs : a.stack = newer :: older :: rest) :
    a.step ((joinLine w).row seq st) = some ({ id := a.nextId, body := .block w [older.id, newer.id] },
      { a with stack := { id := a.nextId, body := .block w [older.id, newer.id] } :: rest,
               nodes := a.nodes ++ [{ id := a.nextId, body := .block w [older.id, newer.id] }],
               count := a.count + 1 }) := by
  cases w <;>
    simp [step, joinLine, ListingLine.row, lookupInstruction_join, joinLatest, hs, join, keep, fresh]

/-- The row of a tap line builds the tap again under the next id. -/
theorem step_tap {t : Node} (hw : t.Writable) {l : ListingLine} (hl : tapLine t = .ok l) :
    a.step (l.row seq st) = some ({ t with id := a.nextId }, { a with count := a.count + 1 }) := by
  obtain ⟨id, comment, cell, body⟩ := t
  obtain ⟨hcell, hcomment, -, hreg, hneg⟩ := hw
  simp only at hcell hcomment hreg hneg
  subst hcell
  cases body with
  | coil ct addr neg =>
    obtain rfl := (Except.ok.inj hl.symm)
    have haddr := DeviceAddress.parse?_format (hreg.2 addr (by simp [NodeBody.addresses]))
    have hout : neg = true → ct = .out := by
      rintro rfl
      exact hneg ct addr rfl
    simp [step, ListingLine.row, lookupInstruction_coil ct hout, tapBody,
      ListingLine.present_of_ne (DeviceAddress.format_ne_empty addr), haddr,
      ListingLine.present_comment hcomment, fresh, nextId]
  | timer tt addr p tb =>
    obtain rfl := (Except.ok.inj hl.symm)
    have haddr := DeviceAddress.parse?_format (hreg.2 addr (by simp [NodeBody.addresses]))
    have hp : toString p ≠ "" := Operand.text_ne_empty (.immediate p)
    have htb : tb.name ≠ "" := by cases tb <;> decide
    simp only [step, ListingLine.row, lookupInstruction_timer tt, tapBody,
      ListingLine.present_of_ne (DeviceAddress.format_ne_empty addr),
      ListingLine.present_of_ne hp, ListingLine.present_of_ne htb, preset_toString, timeBase_name,
      ListingLine.present_comment hcomment, Option.bind_some, haddr, Option.map_some]
    simp [fresh, nextId]
  | counter ct addr p =>
    obtain rfl := (Except.ok.inj hl.symm)
    have haddr := DeviceAddress.parse?_format (hreg.2 addr (by simp [NodeBody.addresses]))
    have hp : toString p ≠ "" := Operand.text_ne_empty (.immediate p)
    simp only [step, ListingLine.row, lookupInstruction_counter ct, tapBody,
      ListingLine.present_of_ne (DeviceAddress.format_ne_empty addr),
      ListingLine.present_of_ne hp, preset_toString,
      ListingLine.present_comment hcomment, Option.bind_some, haddr, Option.map_some]
    simp [fresh, nextId]
  | math op src src2 dst =>
    have hsrc := Operand.parse?_text (hreg.operand fun a ha =>
      List.mem_append_left _ (List.mem_filterMap.mpr ⟨src, by simp, ha⟩))
    have hdst := DeviceAddress.parse?_format (hreg.2 dst (by simp [NodeBody.addresses]))
    cases op with
    | mov =>
      obtain rfl : src2 = none := by
        cases src2 with
        | none => rfl
        | some _ => simp [NodeBody.Regular, NodeBody.problem?] at hreg
      obtain rfl := (Except.ok.inj hl.symm)
      have hmov : lookupInstruction (Text.upper "MOV") = some (.math .mov) :=
        lookupInstruction_math .mov
      simp [step, ListingLine.row, hmov, tapBody, Operand.parseOpt?,
        ListingLine.present_of_ne (Operand.text_ne_empty src),
        ListingLine.present_of_ne (DeviceAddress.format_ne_empty dst), hsrc, hdst,
        ListingLine.present_comment hcomment, fresh, nextId]
    | add | sub | mul | div =>
      obtain rfl := (Except.ok.inj hl.symm)
      have hsrc2 : Operand.parseOpt? (ListingLine.present ((src2.map Operand.text).getD "")) = src2 := by
        cases src2 with
        | none => simp [Operand.parseOpt?]
        | some o =>
          simp [ListingLine.present_of_ne (Operand.text_ne_empty o), Operand.parseOpt?,
            Operand.parse?_text (hreg.operand fun a ha =>
              List.mem_append_left _ (List.mem_filterMap.mpr ⟨o, by simp, ha⟩))]
      have hsrc' : Operand.parseOpt? (some src.text) = some src := hsrc
      simp [step, ListingLine.row, lookupInstruction_math, tapBody, hsrc',
        ListingLine.present_of_ne (Operand.text_ne_empty src),
        ListingLine.present_of_ne (DeviceAddress.format_ne_empty dst), hdst, hsrc2,
        ListingLine.present_comment hcomment, fresh, nextId]
  | contact | comparison | block => simp [tapLine] at hl

end Assembler

/-! ## Clean lines

Every line the writer gives a writable node holds clean fields and an instruction, so its
record reads back as its row.
-/

namespace ListingLine

theorem Clean.intro {l : ListingLine} (hi : Text.Clean l.instruction) (h1 : Text.Clean l.operand1)
    (h2 : Text.Clean l.operand2) (h3 : Text.Clean l.operand3) (hc : Text.Clean l.comment) :
    l.Clean := by
  simp [Clean, hi, h1, h2, h3, hc]

theorem clean_getD {c : Option String} (h : ∀ x ∈ c, Text.Clean x ∧ x ≠ "") :
    Text.Clean (c.getD "") := by
  cases c with
  | none => exact Text.clean_empty
  | some x => exact (h x rfl).1

/-- A mnemonic of printable characters is a clean instruction. -/
theorem clean_mnemonic {s : String} (h : s.toList.all (fun c => decide (Text.Printable c)) = true)
    (hne : s.toList ≠ []) : Text.Clean s ∧ s ≠ "" :=
  ⟨Text.clean_of_printable (Text.printable_of_all h), fun h' => hne (by simp [h'])⟩

theorem clean_conditionLine {pre : String} (hpre : pre = "LOAD" ∨ pre = "AND") {n : Node}
    (hcomment : ∀ c ∈ n.comment, Text.Clean c ∧ c ≠ "") {l : ListingLine}
    (hl : conditionLine pre n = .ok l) : l.Clean ∧ l.instruction ≠ "" := by
  obtain ⟨id, comment, cell, body⟩ := n
  have hc := clean_getD hcomment
  cases body with
  | contact t addr =>
    obtain rfl := (Except.ok.inj hl.symm)
    have hi : Text.Clean (pre ++ t.suffix) ∧ pre ++ t.suffix ≠ "" := by
      rcases hpre with rfl | rfl <;> cases t <;>
        exact clean_mnemonic (by decide +kernel) (by decide +kernel)
    exact ⟨.intro hi.1 (DeviceAddress.clean_format addr) Text.clean_empty Text.clean_empty hc, hi.2⟩
  | comparison op x y =>
    obtain rfl := (Except.ok.inj hl.symm)
    have hi : Text.Clean ((if pre == "LOAD" then "LD" else pre) ++ op.symbol) ∧
        (if pre == "LOAD" then "LD" else pre) ++ op.symbol ≠ "" := by
      rcases hpre with rfl | rfl <;> cases op <;>
        exact clean_mnemonic (by decide +kernel) (by decide +kernel)
    exact ⟨.intro hi.1 (Operand.clean_text x) (Operand.clean_text y) Text.clean_empty hc, hi.2⟩
  | coil | timer | counter | math | block => simp [conditionLine] at hl

theorem clean_joinLine (w : Wiring) : (joinLine w).Clean ∧ (joinLine w).instruction ≠ "" := by
  have hi : Text.Clean (joinLine w).instruction ∧ (joinLine w).instruction ≠ "" := by
    cases w <;> exact clean_mnemonic (by decide +kernel) (by decide +kernel)
  cases w <;> exact ⟨.intro hi.1 Text.clean_empty Text.clean_empty Text.clean_empty Text.clean_empty, hi.2⟩

theorem clean_tapLine {t : Node} (hw : t.Writable) {l : ListingLine} (hl : tapLine t = .ok l) :
    l.Clean ∧ l.instruction ≠ "" := by
  obtain ⟨id, comment, cell, body⟩ := t
  have hc := clean_getD hw.comment_clean
  have hint (p : Int) : Text.Clean (toString p) := Text.clean_of_printable (Text.printable_toString p)
  cases body with
  | coil ct addr neg =>
    obtain rfl := (Except.ok.inj hl.symm)
    have hi : Text.Clean (ct.mnemonic ++ if neg then "N" else "") ∧
        (ct.mnemonic ++ if neg then "N" else "") ≠ "" := by
      cases ct <;> cases neg <;> exact clean_mnemonic (by decide +kernel) (by decide +kernel)
    exact ⟨.intro hi.1 (DeviceAddress.clean_format addr) Text.clean_empty Text.clean_empty hc, hi.2⟩
  | timer tt addr p tb =>
    obtain rfl := (Except.ok.inj hl.symm)
    have hi : Text.Clean tt.name ∧ tt.name ≠ "" := by
      cases tt <;> exact clean_mnemonic (by decide +kernel) (by decide +kernel)
    have htb : Text.Clean tb.name := by
      cases tb <;> exact (clean_mnemonic (by decide +kernel) (by decide +kernel)).1
    exact ⟨.intro hi.1 (DeviceAddress.clean_format addr) (hint p) htb hc, hi.2⟩
  | counter ct addr p =>
    obtain rfl := (Except.ok.inj hl.symm)
    have hi : Text.Clean ct.name ∧ ct.name ≠ "" := by
      cases ct <;> exact clean_mnemonic (by decide +kernel) (by decide +kernel)
    exact ⟨.intro hi.1 (DeviceAddress.clean_format addr) (hint p) Text.clean_empty hc, hi.2⟩
  | math op src src2 dst =>
    have hi : Text.Clean op.name ∧ op.name ≠ "" := by
      cases op <;> exact clean_mnemonic (by decide +kernel) (by decide +kernel)
    have hsrc2 : Text.Clean ((src2.map Operand.text).getD "") := by
      cases src2 with
      | none => exact Text.clean_empty
      | some o => exact Operand.clean_text o
    cases op with
    | mov =>
      obtain rfl := (Except.ok.inj hl.symm)
      exact ⟨.intro hi.1 (Operand.clean_text src) (DeviceAddress.clean_format dst)
        Text.clean_empty hc, hi.2⟩
    | add | sub | mul | div =>
      obtain rfl := (Except.ok.inj hl.symm)
      exact ⟨.intro hi.1 (Operand.clean_text src) hsrc2 (DeviceAddress.clean_format dst) hc, hi.2⟩
  | contact | comparison | block => simp [tapLine] at hl

end ListingLine

end RelayLadder
