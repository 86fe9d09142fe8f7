import RelayLadder.Proofs.Unfold
import RelayLadder.Proofs.Lines
import RelayLadder.Proofs.Refusal

/-! # The writer binarises the logic tree

A block may have any number of children, and some of them may hold no leaf at all, while the
stack program of a listing only ever joins two branches. The writer loads a block's first child
that yields a branch and joins each later one to what stands so far, with the block's own
wiring. The tree it rebuilds is the block's children that hold a leaf, folded from the left
(`Trees.bins`): a block whose children hold no leaf writes nothing, and a block with a single
such child stands for that child.

Read back and fed to a fresh assembler, the lines of a tree that holds no node twice leave on
the stack exactly this binarised tree, equal to the original up to ids and cells (`Sketch`),
and never put a condition aside to join in parallel. Where a leaf of the tree is not a
condition, the writer fails instead, naming the kind of the first such leaf in pre-order.

The proof follows the writer's fold over a block's children: `Grows` says what lines do to the
branch on top of the stack, and one lemma per kind of child (`childLines_grows`) makes the fold
an induction over the tree (`Trees.loadAfter_grows`).
-/

namespace RelayLadder

/-! ## Binarised trees -/

/-- A binary logic tree up to ids and cells: a condition with its comment and body, or a block
with its comment that joins two trees with a wiring. -/
inductive Sketch where
  | leaf (comment : Option String) (body : NodeBody)
  | join (comment : Option String) (w : Wiring) (first second : Sketch)
  deriving DecidableEq, Repr

namespace Sketch

/-- The tree so far of a block of a wiring, grown by one more child: the first child stands for
the block, and each later one joins what stands so far in a new block without a comment. -/
def grow (w : Wiring) : Option Sketch → Sketch → Option Sketch
  | none, s => some s
  | some c, s => some (join none w c s)

/-- The children of a block of a wiring folded from the left; none without children. -/
def chain (w : Wiring) (ss : List Sketch) : Option Sketch := ss.foldl (grow w) none

theorem foldl_grow_isSome (w : Wiring) (ss : List Sketch) {c : Sketch} :
    ss.foldl (grow w) (some c) ≠ none := by
  induction ss generalizing c with
  | nil => simp
  | cons s ss ih => exact ih

theorem chain_eq_none_iff (w : Wiring) (ss : List Sketch) : chain w ss = none ↔ ss = [] := by
  cases ss with
  | nil => simp [chain]
  | cons s ss => simpa [chain, grow] using foldl_grow_isSome w ss

/-- Growing nothing by at most one tree gives that tree. -/
theorem foldl_grow_toList (w : Wiring) (s : Option Sketch) : s.toList.foldl (grow w) none = s := by
  cases s <;> rfl

end Sketch

/-- A branch up to ids and cells. -/
def Branch.sketch : Branch → Sketch
  | .leaf n => .leaf n.comment n.body
  | .join n w f s => .join n.comment w f.sketch s.sketch

/-- The binarised tree under a node whose children's binarised trees are given: a leaf is
itself, and a block folds its children with its own wiring; none when no leaf is below. -/
def Node.bin (n : Node) (kids : List Sketch) : Option Sketch :=
  match n.body with
  | .block w _ => Sketch.chain w kids
  | _ => some (.leaf n.comment n.body)

namespace Trees

/-- The binarised trees of those among the trees that hold a leaf, in order. -/
def bins : Trees → List Sketch
  | nil => []
  | cons n kids rest => (n.bin kids.bins).toList ++ rest.bins

@[simp] theorem bins_nil : nil.bins = [] := rfl
@[simp] theorem bins_cons (n : Node) (kids rest : Trees) :
    (cons n kids rest).bins = (n.bin kids.bins).toList ++ rest.bins := rfl

/-- Trees have no binarised tree exactly when they hold no leaf. -/
theorem bins_eq_nil_iff (t : Trees) : t.bins = [] ↔ ∀ m ∈ t.nodes, m.body.isBlock = true := by
  induction t with
  | nil => simp
  | cons n kids rest ihk ihr =>
    have hown : n.bin kids.bins = none ↔ n.body.isBlock = true ∧ kids.bins = [] := by
      cases hb : n.body <;> simp [Node.bin, hb, NodeBody.isBlock, Sketch.chain_eq_none_iff]
    simp only [bins_cons, List.append_eq_nil_iff, Option.toList_eq_nil_iff, hown, ihk, ihr,
      nodes_cons, List.mem_cons, List.mem_append, forall_eq_or_imp]
    constructor
    · rintro ⟨⟨hn, hk⟩, hr⟩
      exact ⟨hn, fun m hm => hm.elim (hk m) (hr m)⟩
    · rintro ⟨hn, h⟩
      exact ⟨⟨hn, fun m hm => h m (.inl hm)⟩, fun m hm => h m (.inr hm)⟩

end Trees

/-! ## Nodes off the logic path -/

/-- A node the writer cannot put on the logic path: a leaf that is not a condition. -/
def Node.offPath (m : Node) : Bool := !m.body.isBlock && !m.body.isCondition

theorem conditionLine_offPath {n : Node} (h : n.offPath = true) (pre : String) :
    conditionLine pre n = .error (.offPath n.kind) := by
  obtain ⟨id, comment, cell, body⟩ := n
  cases body <;> simp_all [Node.offPath, NodeBody.isBlock, NodeBody.isCondition, conditionLine]

theorem isCondition_of_offPath_eq_false {n : Node} (h : n.offPath = false)
    (hb : n.body.isBlock = false) : n.body.isCondition = true := by
  simpa [Node.offPath, hb] using h

namespace Trees

/-- A child of a block is written once its own lines are: after a branch is loaded, a condition
of a series block is joined with `AND` and every other child is loaded and joined. -/
theorem childLines_ok {own : Except ListingError (List ListingLine × Bool)} {r}
    (hown : own = .ok r) {c : Node} (hc : c.body.isBlock = false → c.body.isCondition = true)
    (w : Wiring) (acc : List ListingLine × Bool) : ∃ r', childLines w acc c own = .ok r' := by
  unfold childLines
  by_cases hand : (w == .series && !c.body.isBlock) = true
  · have hb : c.body.isBlock = false := by simpa using (Bool.and_eq_true_iff.mp hand).2
    obtain ⟨l, hl⟩ := Branch.conditionLine_ok (hc hb) "AND"
    cases acc.2 <;> simp [hand, hown, hl, bind, Except.bind, pure, Except.pure]
  · cases acc.2 <;> simp [hand, hown, bind, Except.bind, pure, Except.pure]

/-- A child whose own lines fail, and whose `AND` line fails as well when it is a leaf, fails
the same way. -/
theorem childLines_error {own : Except ListingError (List ListingLine × Bool)} {e : ListingError}
    (hown : own = .error e) {c : Node} (hand : c.body.isBlock = false → conditionLine "AND" c = .error e)
    (w : Wiring) (acc : List ListingLine × Bool) : childLines w acc c own = .error e := by
  unfold childLines
  cases hb : c.body.isBlock with
  | false => cases acc.2 <;> cases w <;> simp [hown, hand hb, bind, Except.bind]
  | true => cases acc.2 <;> simp [hown, bind, Except.bind]

/-- A node's own lines are written when it is a condition or a block whose children are
written. -/
theorem ownLines_ok {c : Node} (hc : c.body.isBlock = false → c.body.isCondition = true)
    {kids : Wiring → Except ListingError (List ListingLine × Bool)} (hkids : ∀ w, ∃ r, kids w = .ok r) :
    ∃ r, ownLines c kids = .ok r := by
  cases hb : c.body with
  | block cw ids => simpa [ownLines, hb] using hkids cw
  | contact | coil | timer | counter | comparison | math =>
    obtain ⟨l, hl⟩ := Branch.conditionLine_ok (hc (by simp [hb, NodeBody.isBlock])) "LOAD"
    exact ⟨([l], true), by simp [ownLines, hb, hl, Functor.map, Except.map]⟩

/-- Trees whose leaves are all conditions are written. -/
theorem loadAfter_ok {t : Trees} (h : ∀ m ∈ t.nodes, m.offPath = false) (w : Wiring)
    (acc : List ListingLine × Bool) : ∃ r, t.loadAfter w acc = .ok r := by
  induction t generalizing w acc with
  | nil => exact ⟨acc, rfl⟩
  | cons c kids rest ihk ihr =>
    have hc : c.body.isBlock = false → c.body.isCondition = true :=
      isCondition_of_offPath_eq_false (h c (by simp))
    -- the lines of the child itself
    obtain ⟨r, hr⟩ := ownLines_ok hc fun cw => ihk (fun m hm => h m (by simp [hm])) cw ([], false)
    obtain ⟨r', hr'⟩ := childLines_ok hr hc w acc
    obtain ⟨r'', hr''⟩ := ihr (fun m hm => h m (by simp [hm])) w r'
    exact ⟨r'', by rw [loadAfter, hr']; exact hr''⟩

end Trees

namespace Unfolds

variable {nodes : List Node}

/-- Loading unfolded trees fails at the first leaf in pre-order that is not a condition, and
names its kind. -/
theorem loadAfter_error {ns : List Node} {t : Trees} (h : Unfolds nodes ns t) {m : Node}
    (hm : t.nodes.find? Node.offPath = some m) (w : Wiring) (acc : List ListingLine × Bool) :
    t.loadAfter w acc = .error (.offPath m.kind) := by
  induction h generalizing w acc with
  | nil => simp at hm
  | cons hk hr ihk ihr =>
    rename_i c cs kids rest
    by_cases hc : c.offPath = true
    · -- the child itself is the first leaf off the path
      obtain rfl : c = m := by simpa [List.find?_cons_of_pos, hc] using hm
      have hb : c.body.isBlock = false := by simp_all [Node.offPath]
      have hown : (Trees.ownLines c fun cw => kids.loadAfter cw ([], false)) =
          .error (.offPath c.kind) := by
        cases hbody : c.body with
        | block => simp [hbody, NodeBody.isBlock] at hb
        | contact | coil | timer | counter | comparison | math =>
          simp [Trees.ownLines, hbody, conditionLine_offPath hc, Functor.map, Except.map]
      rw [Trees.loadAfter, Trees.childLines_error hown (fun _ => conditionLine_offPath hc "AND") w acc]
      rfl
    · have hm' : (kids.nodes ++ rest.nodes).find? Node.offPath = some m := by
        simpa [hc] using hm
      rw [List.find?_append] at hm'
      cases hkf : kids.nodes.find? Node.offPath with
      | some m' =>
        -- the first leaf off the path is below the child, which is therefore a block
        obtain rfl : m' = m := by simpa [hkf] using hm'
        cases hbody : c.body with
        | block cw ids =>
          have hown := ihk hkf cw ([], false)
          rw [Trees.loadAfter, Trees.childLines_error (c := c) (e := .offPath m'.kind)
            (by simp [Trees.ownLines, hbody, hown]) (fun hb => by simp [hbody, NodeBody.isBlock] at hb)
            w acc]
          rfl
        | contact | coil | timer | counter | comparison | math =>
          have : kids = .nil := by
            rw [hbody] at hk
            cases hk
            rfl
          simp [this] at hkf
      | none =>
        -- the child is written whole, and the first leaf off the path follows it
        have hrf : rest.nodes.find? Node.offPath = some m := by simpa [hkf] using hm'
        have hkids : ∀ x ∈ kids.nodes, x.offPath = false := by
          simpa using List.find?_eq_none.mp hkf
        have hcond : c.body.isBlock = false → c.body.isCondition = true :=
          isCondition_of_offPath_eq_false (by simpa using hc)
        obtain ⟨r, hr⟩ := Trees.ownLines_ok hcond fun cw => Trees.loadAfter_ok hkids cw ([], false)
        obtain ⟨r', hr'⟩ := Trees.childLines_ok hr hcond w acc
        rw [Trees.loadAfter, hr']
        exact ihr hrf w r'

end Unfolds

/-! ## Lines read back -/

/-- A node the writer loads and the assembler builds again whole: a condition with a clean
comment and a regular body. -/
structure Node.Loadable (m : Node) : Prop where
  condition : m.body.isCondition = true
  comment_clean : ∀ c ∈ m.comment, Text.Clean c ∧ c ≠ ""
  regular : m.body.Regular

/-- Whether an instruction builds on the logic path without putting a condition aside: a
condition loaded or joined in series, or a join of the two latest branches. -/
def Instruction.onPath : Instruction → Bool
  | .contact l _ | .compare l _ => l != .or
  | .joinBranches _ => true
  | _ => false

/-- A line of the logic path as it reads back: clean, with an instruction that builds on the
logic path. -/
def ListingLine.OnPath (l : ListingLine) : Prop :=
  l.Clean ∧ l.instruction ≠ "" ∧
    (lookupInstruction (Text.upper l.instruction)).map Instruction.onPath = some true

namespace ListingLine

theorem onPath_conditionLine {pre : String} (hpre : pre = "LOAD" ∨ pre = "AND") {n : Node}
    (hcomment : ∀ c ∈ n.comment, Text.Clean c ∧ c ≠ "") {l : ListingLine}
    (hl : conditionLine pre n = .ok l) : l.OnPath := by
  obtain ⟨hclean, hne⟩ := clean_conditionLine hpre hcomment hl
  refine ⟨hclean, hne, ?_⟩
  obtain ⟨id, comment, cell, body⟩ := n
  cases body with
  | contact t addr =>
    obtain rfl := (Except.ok.inj hl.symm)
    rcases hpre with rfl | rfl
    · simp [(lookupInstruction_contact t).1, Instruction.onPath]
    · simp [(lookupInstruction_contact t).2, Instruction.onPath]
  | comparison op x y =>
    obtain rfl := (Except.ok.inj hl.symm)
    rcases hpre with rfl | rfl
    · simp [(lookupInstruction_compare op).1, Instruction.onPath]
    · simp [(lookupInstruction_compare op).2, Instruction.onPath]
  | coil | timer | counter | math | block => simp [conditionLine] at hl

theorem onPath_joinLine (w : Wiring) : (joinLine w).OnPath := by
  refine ⟨(clean_joinLine w).1, (clean_joinLine w).2, ?_⟩
  cases w <;> simp [joinLine, lookupInstruction_join, Instruction.onPath]

end ListingLine

namespace Assembler

/-- Placing a condition other than in parallel leaves the pending branches. -/
theorem pendingOr_link {l : Link} (hl : l ≠ .or) (a : Assembler) (n : Node) :
    (a.link l n).2.pendingOr = a.pendingOr := by
  unfold link
  split
  · rfl
  · rfl
  · rfl
  · exact absurd rfl hl

theorem pendingOr_joinLatest {a a' : Assembler} {w : Wiring} {n : Node}
    (h : a.joinLatest w = some (n, a')) : a'.pendingOr = a.pendingOr := by
  unfold joinLatest at h
  split at h
  · obtain ⟨-, rfl⟩ := Prod.mk.inj (Option.some.inj h)
    rfl
  · simp at h

/-- A row of the logic path leaves the pending branches. -/
theorem pendingOr_step {a a' : Assembler} {r : Row} {n : Node} (hs : a.step r = some (n, a'))
    (h : (lookupInstruction r.instruction).map Instruction.onPath = some true) :
    a'.pendingOr = a.pendingOr := by
  unfold step at hs
  cases hi : lookupInstruction r.instruction with
  | none => simp [hi] at hs
  | some i =>
    rw [hi] at hs h
    cases i with
    | contact l t | compare l t =>
      obtain ⟨body, -, hs⟩ := Option.map_eq_some_iff.mp hs
      have hl : l ≠ .or := fun he => by simp [Instruction.onPath, he] at h
      have := pendingOr_link hl (a.keep r.comment body).2 (a.keep r.comment body).1
      rw [hs] at this
      exact this
    | joinBranches w => exact pendingOr_joinLatest hs
    | coil t neg | timer t | counter t | math t =>
      obtain ⟨body, -, hs⟩ := Option.map_eq_some_iff.mp hs
      obtain ⟨-, rfl⟩ := Prod.mk.inj hs
      rfl

theorem pendingOr_perform {a : Assembler} {r : Row}
    (h : (lookupInstruction r.instruction).map Instruction.onPath = some true) :
    (a.perform (.row r)).pendingOr = a.pendingOr := by
  cases hs : a.step r with
  | none => simp [perform, hs]
  | some p => simpa [perform, hs] using pendingOr_step hs h

theorem pendingOr_run {a : Assembler} {rows : List Row}
    (h : ∀ r ∈ rows, (lookupInstruction r.instruction).map Instruction.onPath = some true) :
    (a.run (rows.map .row)).pendingOr = a.pendingOr := by
  induction rows generalizing a with
  | nil => rfl
  | cons r rows ih =>
    simp only [List.map_cons, run, List.foldl_cons] at ih ⊢
    rw [ih (fun r' hr' => h r' (by simp [hr'])), pendingOr_perform (h r (by simp))]

/-- The state after the rows that lines read back as; the assembler does not read a row's
number or step. -/
def feed (a : Assembler) (ls : List ListingLine) : Assembler :=
  a.run (ls.map fun l => .row (l.row 0 0))

@[simp] theorem feed_nil (a : Assembler) : a.feed [] = a := rfl

theorem feed_cons (a : Assembler) (l : ListingLine) (ls : List ListingLine) :
    a.feed (l :: ls) = (a.perform (.row (l.row 0 0))).feed ls := by
  simp only [feed, run, List.map_cons, List.foldl_cons]

theorem feed_append (a : Assembler) (ls ls' : List ListingLine) :
    a.feed (ls ++ ls') = (a.feed ls).feed ls' := by
  simp [feed, run, List.foldl_append]

/-- A line whose row builds a node leads to the state after it. -/
theorem feed_singleton {a a' : Assembler} {l : ListingLine} {n : Node}
    (h : a.step (l.row 0 0) = some (n, a')) : a.feed [l] = a' := by
  simp only [feed_cons, feed_nil, perform, h]

theorem perform_row (a : Assembler) (l : ListingLine) (seq st : Nat) :
    a.perform (.row (l.row seq st)) = a.perform (.row (l.row 0 0)) := by
  simp only [perform, step, conditionBody, tapBody, ListingLine.row]

/-- Rows read back from lines, numbered in any way, do what the lines' rows do. -/
theorem run_numbered (a : Assembler) (ls : List (ListingLine × Nat)) (seq : ListingLine × Nat → Nat)
    (st : Nat) : a.run (ls.map fun p => .row (p.1.row (seq p) st)) = a.feed (ls.map Prod.fst) := by
  induction ls generalizing a with
  | nil => rfl
  | cons p ls ih =>
    simp only [List.map_cons, run, List.foldl_cons, feed] at ih ⊢
    rw [perform_row]
    exact ih _

section

variable {a : Assembler} {bs : List Branch}

/-- A loaded condition line pushes the condition as a new branch. -/
theorem feed_load (h : Holds a bs []) {m : Node} (hm : m.Loadable) {l : ListingLine}
    (hl : conditionLine "LOAD" m = .ok l) :
    ∃ b, Holds (a.feed [l]) (b :: bs) [] ∧ b.sketch = .leaf m.comment m.body := by
  have hstep := step_load (a := a) 0 0 hm.comment_clean hm.regular hl
  refine ⟨.leaf { m with id := a.nextId, cell := {} }, ?_, rfl⟩
  rw [feed_singleton hstep]
  exact h.push rfl hm.condition

/-- A condition line joined with `AND` makes the latest branch the first of a series block. -/
theorem feed_and {b : Branch} (h : Holds a (b :: bs) []) {m : Node} (hm : m.Loadable)
    {l : ListingLine} (hl : conditionLine "AND" m = .ok l) :
    ∃ b', Holds (a.feed [l]) (b' :: bs) [] ∧
      b'.sketch = .join none .series b.sketch (.leaf m.comment m.body) := by
  have hstep := step_and (a := a) 0 0 hm.comment_clean hm.regular hl (h.stack_eq.trans rfl)
  refine ⟨.join { id := nodeId (a.count + 2), body := .block .series [b.root.id, a.nextId] } .series b
    (.leaf { m with id := a.nextId, cell := {} }), ?_, rfl⟩
  rw [feed_singleton hstep]
  exact h.series (c := { m with id := a.nextId, cell := {} }) rfl hm.condition

/-- A join line joins the two latest branches, the older first. -/
theorem feed_joinLine {bn bo : Branch} (h : Holds a (bn :: bo :: bs) []) (w : Wiring) :
    ∃ b', Holds (a.feed [joinLine w]) (b' :: bs) [] ∧ b'.sketch = .join none w bo.sketch bn.sketch := by
  have hstep := step_joinLine (a := a) 0 0 w (h.stack_eq.trans rfl)
  refine ⟨.join { id := nodeId (a.count + 1), body := .block w [bo.root.id, bn.root.id] } w bo bn, ?_, rfl⟩
  rw [feed_singleton hstep]
  exact h.join w

end

end Assembler

/-! ## Growing the branch of a block -/

open Assembler in
/-- Lines that grow the branch of a block on top of the stack from `sc` to `sc'`, where none
stands for no branch of the block yet. Each line reads back as a row that puts nothing aside;
fed to an assembler whose stack holds such a branch over others, the lines leave the grown
branch over the same others. -/
structure Grows (ls : List ListingLine) (sc sc' : Option Sketch) : Prop where
  onPath : ∀ l ∈ ls, l.OnPath
  feeds : ∀ (a : Assembler) (cur : Option Branch) (bs : List Branch),
    Holds a (cur.toList ++ bs) [] → cur.map Branch.sketch = sc →
      ∃ cur' : Option Branch, Holds (a.feed ls) (cur'.toList ++ bs) [] ∧ cur'.map Branch.sketch = sc'

namespace Grows

theorem nil (sc : Option Sketch) : Grows [] sc sc :=
  ⟨by simp, fun _ cur _ h hc => ⟨cur, h, hc⟩⟩

theorem append {ls ls' : List ListingLine} {s₀ s₁ s₂ : Option Sketch} (h : Grows ls s₀ s₁)
    (h' : Grows ls' s₁ s₂) : Grows (ls ++ ls') s₀ s₂ := by
  refine ⟨fun l hl => (List.mem_append.mp hl).elim (h.onPath l) (h'.onPath l), ?_⟩
  intro a cur bs hH hc
  obtain ⟨cur₁, hH₁, hc₁⟩ := h.feeds a cur bs hH hc
  obtain ⟨cur₂, hH₂, hc₂⟩ := h'.feeds _ cur₁ bs hH₁ hc₁
  exact ⟨cur₂, by rw [Assembler.feed_append]; exact hH₂, hc₂⟩

/-- Lines that load one branch from nothing load it on top of a branch standing below, which
stays as it is. -/
theorem above {ls : List ListingLine} {s : Option Sketch} (h : Grows ls none s) {a : Assembler}
    {b : Branch} {bs : List Branch} (hH : Assembler.Holds a (b :: bs) []) :
    ∃ cur' : Option Branch, Assembler.Holds (a.feed ls) (cur'.toList ++ b :: bs) [] ∧
      cur'.map Branch.sketch = s :=
  h.feeds a none (b :: bs) hH rfl

/-- A loaded condition line starts a branch of the condition. -/
theorem load {m : Node} (hm : m.Loadable) {l : ListingLine} (hl : conditionLine "LOAD" m = .ok l) :
    Grows [l] none (some (.leaf m.comment m.body)) := by
  refine ⟨by simpa using ListingLine.onPath_conditionLine (.inl rfl) hm.comment_clean hl, ?_⟩
  rintro a (_ | b) bs hH hcur
  · obtain ⟨b', hH', hb'⟩ := Assembler.feed_load hH hm hl
    exact ⟨some b', hH', by simp [hb']⟩
  · simp at hcur

/-- A condition line joined with `AND` joins the condition to the branch so far in series. -/
theorem series {m : Node} (hm : m.Loadable) {l : ListingLine} (hl : conditionLine "AND" m = .ok l)
    (y : Sketch) : Grows [l] (some y) (some (.join none .series y (.leaf m.comment m.body))) := by
  refine ⟨by simpa using ListingLine.onPath_conditionLine (.inr rfl) hm.comment_clean hl, ?_⟩
  rintro a (_ | b) bs hH hcur
  · simp at hcur
  · obtain rfl : b.sketch = y := by simpa using hcur
    obtain ⟨b', hH', hb'⟩ := Assembler.feed_and hH hm hl
    exact ⟨some b', hH', by simp [hb']⟩

/-- Lines that load a branch on their own, followed by a join line, join that branch to the
branch so far. -/
theorem joined {ls : List ListingLine} {x : Sketch} (h : Grows ls none (some x)) (w : Wiring)
    (y : Sketch) : Grows (ls ++ [joinLine w]) (some y) (some (.join none w y x)) := by
  refine ⟨fun l hl => ?_, ?_⟩
  · rcases List.mem_append.mp hl with hl | hl
    · exact h.onPath l hl
    · obtain rfl : l = joinLine w := by simpa using hl
      exact ListingLine.onPath_joinLine w
  · rintro a (_ | b) bs hH hcur
    · simp at hcur
    · obtain ⟨cur', hH', hc'⟩ := h.above hH
      obtain ⟨bx, rfl, rfl⟩ : ∃ bx, cur' = some bx ∧ bx.sketch = x := by
        cases cur' <;> simp_all
      obtain ⟨b', hH'', hb'⟩ := Assembler.feed_joinLine hH' w
      obtain rfl : b.sketch = y := by simpa using hcur
      exact ⟨some b', by rw [Assembler.feed_append]; exact hH'', by simp [hb']⟩

/-- Lines that load nothing leave the branch so far. -/
theorem kept {ls : List ListingLine} (h : Grows ls none none) (y : Sketch) :
    Grows ls (some y) (some y) := by
  refine ⟨h.onPath, ?_⟩
  rintro a (_ | b) bs hH hcur
  · simp at hcur
  · obtain ⟨cur', hH', hc'⟩ := h.above hH
    obtain rfl : cur' = none := by simpa using hc'
    exact ⟨some b, hH', hcur⟩

end Grows

namespace Trees

/-- One child of a block, whose own lines load its binarised tree `s` as a branch: the writer's
step over it grows the block's tree so far by `s`. -/
theorem childLines_grows {own : Except ListingError (List ListingLine × Bool)} {lo : List ListingLine}
    {s : Option Sketch} (hown : own = .ok (lo, s.isSome)) (hg : Grows lo none s) {c : Node}
    (hc : c.body.isBlock = false → c.Loadable ∧ s = some (.leaf c.comment c.body))
    (w : Wiring) (ls₀ : List ListingLine) (sc : Option Sketch) :
    ∃ ls, childLines w (ls₀, sc.isSome) c own =
        .ok (ls₀ ++ ls, (s.toList.foldl (Sketch.grow w) sc).isSome) ∧
      Grows ls sc (s.toList.foldl (Sketch.grow w) sc) := by
  cases sc with
  | none =>
    -- nothing of the block stands yet: the child is loaded and stands for the block so far
    rw [Sketch.foldl_grow_toList]
    exact ⟨lo, by simp [childLines, hown, bind, Except.bind, pure, Except.pure], hg⟩
  | some y =>
    by_cases hand : w = .series ∧ c.body.isBlock = false
    · -- a condition of a series block is joined with AND
      obtain ⟨rfl, hb⟩ := hand
      obtain ⟨hm, rfl⟩ := hc hb
      obtain ⟨l, hl⟩ := Branch.conditionLine_ok hm.condition "AND"
      exact ⟨[l], by simp [childLines, hb, hl, Sketch.grow, bind, Except.bind, pure, Except.pure],
        Grows.series hm hl y⟩
    · -- any other child is loaded as a branch of its own and joined, if it loads one
      have hbranch : (w == .series && !c.body.isBlock) = false := by
        cases w <;> cases hb : c.body.isBlock <;> simp_all
      cases s with
      | none =>
        exact ⟨lo, by simp [childLines, hbranch, hown, bind, Except.bind, pure, Except.pure],
          hg.kept y⟩
      | some x =>
        exact ⟨lo ++ [joinLine w],
          by simp [childLines, hbranch, hown, Sketch.grow, bind, Except.bind, pure, Except.pure],
          hg.joined w y⟩

/-- Loading trees as the children of a block of a wiring, once the block's tree so far is `sc`,
writes lines that grow it by the trees' binarised trees. -/
theorem loadAfter_grows {t : Trees} (hleaf : ∀ m ∈ t.nodes, m.body.isBlock = false → m.Loadable)
    (w : Wiring) (ls₀ : List ListingLine) (sc : Option Sketch) :
    ∃ ls, t.loadAfter w (ls₀, sc.isSome) =
        .ok (ls₀ ++ ls, (t.bins.foldl (Sketch.grow w) sc).isSome) ∧
      Grows ls sc (t.bins.foldl (Sketch.grow w) sc) := by
  induction t generalizing w ls₀ sc with
  | nil => exact ⟨[], by simp [loadAfter], Grows.nil sc⟩
  | cons c kids rest ihk ihr =>
    -- the child's own lines load its binarised tree from nothing
    obtain ⟨lo, hown, hg⟩ : ∃ lo, (ownLines c fun cw => kids.loadAfter cw ([], false)) =
        .ok (lo, (c.bin kids.bins).isSome) ∧ Grows lo none (c.bin kids.bins) := by
      cases hb : c.body with
      | block cw ids =>
        obtain ⟨lo, hlo, hg⟩ := ihk (fun m hm => hleaf m (by simp [hm])) cw [] none
        exact ⟨lo, by simpa [ownLines, Node.bin, hb, Sketch.chain] using hlo,
          by simpa [Node.bin, hb, Sketch.chain] using hg⟩
      | contact | coil | timer | counter | comparison | math =>
        have hm := hleaf c (by simp) (by simp [hb, NodeBody.isBlock])
        obtain ⟨l, hl⟩ := Branch.conditionLine_ok hm.condition "LOAD"
        exact ⟨[l], by simp [ownLines, hl, Node.bin, hb, Functor.map, Except.map],
          by simpa [Node.bin, hb] using Grows.load hm hl⟩
    have hc : c.body.isBlock = false → c.Loadable ∧ c.bin kids.bins = some (.leaf c.comment c.body) :=
      fun hb => ⟨hleaf c (by simp) hb, by cases hbody : c.body <;> simp_all [Node.bin, NodeBody.isBlock]⟩
    obtain ⟨ls₁, h₁, hg₁⟩ := childLines_grows hown hg hc w ls₀ sc
    obtain ⟨ls₂, h₂, hg₂⟩ := ihr (fun m hm => hleaf m (by simp [hm])) w (ls₀ ++ ls₁)
      ((c.bin kids.bins).toList.foldl (Sketch.grow w) sc)
    refine ⟨ls₁ ++ ls₂, ?_, by simpa [List.foldl_append] using hg₁.append hg₂⟩
    rw [loadAfter, h₁, bins_cons, List.foldl_append, ← List.append_assoc]
    exact h₂

end Trees

/-! ## Networks -/

/-- A condition is regular when its addresses name no bit above fifteen. -/
theorem NodeBody.regular_of_isCondition {b : NodeBody} (hc : b.isCondition = true)
    (hbits : ∀ a ∈ b.addresses, ∀ i ∈ a.bitIndex, i ≤ DeviceAddress.maxBitIndex) : b.Regular := by
  refine ⟨?_, hbits⟩
  cases b <;> simp_all [NodeBody.isCondition, NodeBody.problem?]

theorem mapM_tapLine_ok {ns : List Node} (h : ∀ n ∈ ns, n.body.isTap = true) :
    ∃ ls, ns.mapM tapLine = .ok ls := by
  induction ns with
  | nil => exact ⟨[], rfl⟩
  | cons n ns ih =>
    obtain ⟨l, hl⟩ := tapLine_ok (h n (by simp))
    obtain ⟨ls, hls⟩ := ih (fun m hm => h m (by simp [hm]))
    exact ⟨l :: ls, by simp [hl, hls, bind, Except.bind, pure, Except.pure]⟩

theorem listingOf_singleton_error {N : Network} {e : ListingError} (h : networkLines N = .error e)
    (header : Bool) : listingOf [N] header = .error e := by
  simp [listingOf, h, Functor.map, Except.map, bind, Except.bind]

theorem listingOf_singleton_ok {N : Network} {ls : List ListingLine} (h : networkLines N = .ok ls)
    (header : Bool) : ∃ text, listingOf [N] header = .ok text := by
  simp [listingOf, h, Functor.map, Except.map, bind, Except.bind, pure, Except.pure]

/-- A single tree has one binarised tree when it holds a leaf, and none when it does not. -/
theorem Trees.length_bins_single (x : Node) (kids : Trees) :
    (cons x kids nil).bins.length = if ∃ m ∈ (cons x kids nil).nodes, m.body.isBlock = false then 1 else 0 := by
  have hnil := bins_eq_nil_iff (cons x kids nil)
  split
  · rename_i hleaf
    obtain ⟨m, hm, hb⟩ := hleaf
    cases hx : x.bin kids.bins with
    | none => simp [hnil.mp (by simp [hx]) m hm] at hb
    | some s => simp [hx]
  · rename_i hleaf
    have : (cons x kids nil).bins = [] := hnil.mpr (by simpa using hleaf)
    simp [this]

/-- A parallel block of a series pair, an empty series block and a rising contact. -/
def forkedRung : Network where
  id := "r"
  step := 3
  nodes := [{ id := "p", body := .block .parallel ["s", "e", "c"] },
    { id := "s", body := .block .series ["a", "b"] },
    { id := "e", body := .block .series [] },
    { id := "a", comment := some "start", body := .contact .no ⟨.P, 0, none, none⟩ },
    { id := "b", body := .contact .nc ⟨.M, 10, some 3, none⟩ },
    { id := "c", body := .contact .rising ⟨.M, 5, none, none⟩ }]
  rootId := some "p"

/-- The tree of `forkedRung`. -/
def forkedTree : Trees :=
  .cons { id := "p", body := .block .parallel ["s", "e", "c"] }
    (.cons { id := "s", body := .block .series ["a", "b"] }
      (.cons { id := "a", comment := some "start", body := .contact .no ⟨.P, 0, none, none⟩ } .nil
        (.cons { id := "b", body := .contact .nc ⟨.M, 10, some 3, none⟩ } .nil .nil))
      (.cons { id := "e", body := .block .series [] } .nil
        (.cons { id := "c", body := .contact .rising ⟨.M, 5, none, none⟩ } .nil .nil))) .nil

theorem forkedRung_unfolds :
    Unfolds forkedRung.nodes [{ id := "p", body := .block .parallel ["s", "e", "c"] }] forkedTree := by
  have hp : (NodeBody.block .parallel ["s", "e", "c"]).children.filterMap (lookupNode forkedRung.nodes) =
      [{ id := "s", body := .block .series ["a", "b"] }, { id := "e", body := .block .series [] },
        { id := "c", body := .contact .rising ⟨.M, 5, none, none⟩ }] := by decide
  have hs : (NodeBody.block .series ["a", "b"]).children.filterMap (lookupNode forkedRung.nodes) =
      [{ id := "a", comment := some "start", body := .contact .no ⟨.P, 0, none, none⟩ },
        { id := "b", body := .contact .nc ⟨.M, 10, some 3, none⟩ }] := by decide
  refine .cons ?_ .nil
  rw [hp]
  refine .cons ?_ (.cons .nil (.cons .nil .nil))
  rw [hs]
  exact .cons .nil (.cons .nil .nil)

end RelayLadder
