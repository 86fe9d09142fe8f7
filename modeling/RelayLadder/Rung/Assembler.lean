import RelayLadder.Listing.Row
import RelayLadder.Listing.Mnemonic
import RelayLadder.Rung.Node

/-!
# Assembling a rung from its instructions

The rows of one step describe a rung as a stack program. A load pushes a new branch; an
`AND` condition joins the latest branch in series (on an empty stack it loads instead); an
`OR` condition waits in a list of pending parallel branches; `ANDB` and `ORB` join the two
latest branches. Coils, timers, counters and arithmetic are taps: they are built and handed
back, but never enter the stack. When the rung is finished the pending parallel branches
are joined last first, each in parallel with the latest branch.

Every node built gets the id `node_<n>` from a counter that only a full reset restarts.
Conditions and blocks are kept in the arena of the rung, so that block children resolve.
An instruction that cannot be built (an unknown mnemonic, an operand that does not read, a
join with fewer than two branches) builds nothing and leaves the state as it was.
-/

namespace RelayLadder

/-- The state of the assembler within a rung. -/
structure Assembler where
  /-- The branches built so far, the latest first. -/
  stack : List Node := []
  /-- The conditions waiting to join in parallel, the latest first. -/
  pendingOr : List Node := []
  /-- Conditions and blocks of the rung, in the order they were built. -/
  nodes : List Node := []
  /-- How many nodes have been built since the last full reset. -/
  count : Nat := 0
  deriving DecidableEq, Repr, Inhabited

namespace Assembler

/-- The id of the `n`-th node built. -/
def nodeId (n : Nat) : String := "node_" ++ toString n

/-- The id that the next node built gets. -/
def nextId (a : Assembler) : String := nodeId (a.count + 1)

/-- Builds a node with the next id, without keeping it in the arena. -/
def fresh (a : Assembler) (comment : Option String) (body : NodeBody) : Node × Assembler :=
  ({ id := a.nextId, comment, body }, { a with count := a.count + 1 })

/-- Builds a node with the next id and keeps it in the arena. -/
def keep (a : Assembler) (comment : Option String) (body : NodeBody) : Node × Assembler :=
  let (n, a) := a.fresh comment body
  (n, { a with nodes := a.nodes ++ [n] })

/-- Builds a block of two branches and keeps it in the arena. -/
def join (a : Assembler) (w : Wiring) (first second : Node) : Node × Assembler :=
  a.keep none (.block w [first.id, second.id])

/-- The body of the condition that a row describes, if its operands read. -/
def conditionBody (row : Row) : Instruction → Option NodeBody
  | .compare _ op => do
    let l ← Operand.parseOpt? row.operand1
    let r ← Operand.parseOpt? row.operand2
    pure (.comparison op l r)
  | .contact _ t => (row.operand1.bind DeviceAddress.parse?).map (.contact t)
  | _ => none

/-- A timer preset: the operand when it is a decimal number, else zero. -/
def preset (s : Option String) : Int :=
  match s with
  | some t =>
    match Operand.decimal? (Text.trim t).toList with
    | some v => v
    | none => 0
  | none => 0

/-- A timer counts seconds when its unit reads `s`, `sec` or `second`, else milliseconds. -/
def timeBase (s : Option String) : TimeBase :=
  match s with
  | some t => if ["s", "sec", "second"].contains (Text.asciiLower (Text.trim t)) then .s else .ms
  | none => .ms

/-- The body of the tap that a row describes, if its operands read. A move takes its source
and destination from the first two operands; other arithmetic takes two sources and the
destination from the third, and its second source may be missing. -/
def tapBody (row : Row) : Instruction → Option NodeBody
  | .coil t neg => (row.operand1.bind DeviceAddress.parse?).map fun a => .coil t a neg
  | .timer t => (row.operand1.bind DeviceAddress.parse?).map fun a =>
      .timer t a (preset row.operand2) (timeBase row.operand3)
  | .counter t => (row.operand1.bind DeviceAddress.parse?).map fun a =>
      .counter t a (preset row.operand2)
  | .math .mov => do
    let src ← Operand.parseOpt? row.operand1
    let dst ← row.operand2.bind DeviceAddress.parse?
    pure (.math .mov src none dst)
  | .math op => do
    let src ← Operand.parseOpt? row.operand1
    let dst ← row.operand3.bind DeviceAddress.parse?
    pure (.math op src (Operand.parseOpt? row.operand2) dst)
  | _ => none

/-- Places a condition just built as its link says: on top of the branches, in series
with the latest branch (or on top of an empty stack), or among the pending parallel
branches. Gives the node that the row built: the condition, or the series block. -/
def link (a : Assembler) (l : Link) (n : Node) : Node × Assembler :=
  match l, a.stack with
  | .load, _ => (n, { a with stack := n :: a.stack })
  | .and, [] => (n, { a with stack := [n] })
  | .and, top :: rest =>
    let j := a.join .series top n
    (j.1, { j.2 with stack := j.1 :: rest })
  | .or, _ => (n, { a with pendingOr := n :: a.pendingOr })

/-- Joins the two latest branches into one block; none with fewer than two branches. -/
def joinLatest (a : Assembler) (w : Wiring) : Option (Node × Assembler) :=
  match a.stack with
  | newer :: older :: rest =>
    let j := a.join w older newer
    some (j.1, { j.2 with stack := j.1 :: rest })
  | _ => none

/-- Applies one row: the node it built and the new state, or none when it builds nothing
and the state stays as it was. -/
def step (a : Assembler) (row : Row) : Option (Node × Assembler) :=
  match lookupInstruction row.instruction with
  | none => none
  | some i =>
    match i with
    | .contact l _ | .compare l _ =>
      (conditionBody row i).map fun body =>
        let k := a.keep row.comment body
        k.2.link l k.1
    | .joinBranches w => a.joinLatest w
    | _ => (tapBody row i).map (a.fresh row.comment)

/-- Joins the pending parallel branches, the latest first: each in parallel with the latest
branch on the stack, or pushed itself on an empty stack. -/
def foldPending (a : Assembler) : List Node → Assembler
  | [] => a
  | o :: os =>
    match a.stack with
    | [] => foldPending { a with stack := [o] } os
    | top :: rest =>
      let (b, a) := a.join .parallel top o
      foldPending { a with stack := b :: rest } os

/-- Finishes the rung: joins the pending branches and gives the latest branch. -/
def result (a : Assembler) : Option Node × Assembler :=
  let a := foldPending { a with pendingOr := [] } a.pendingOr
  (a.stack.head?, a)

/-- The branches, the oldest first. -/
def branches (a : Assembler) : List Node := a.stack.reverse

/-- The node of the arena with an id. -/
def node? (a : Assembler) (id : String) : Option Node := a.nodes.find? (·.id == id)

/-- Clears the rung and keeps the id counter. -/
def reset (a : Assembler) : Assembler := { count := a.count }

@[simp] theorem reset_count (a : Assembler) : a.reset.count = a.count := rfl

@[simp] theorem reset_stack (a : Assembler) : a.reset.stack = [] := rfl

@[simp] theorem fresh_count (a : Assembler) (c : Option String) (b : NodeBody) :
    (a.fresh c b).2.count = a.count + 1 := rfl

@[simp] theorem fresh_id (a : Assembler) (c : Option String) (b : NodeBody) :
    (a.fresh c b).1.id = nodeId (a.count + 1) := rfl

@[simp] theorem keep_count (a : Assembler) (c : Option String) (b : NodeBody) :
    (a.keep c b).2.count = a.count + 1 := rfl

@[simp] theorem keep_nodes (a : Assembler) (c : Option String) (b : NodeBody) :
    (a.keep c b).2.nodes = a.nodes ++ [(a.keep c b).1] := rfl

@[simp] theorem join_count (a : Assembler) (w : Wiring) (x y : Node) :
    (a.join w x y).2.count = a.count + 1 := rfl

/-- Placing a condition builds at most one block. -/
theorem count_le_link (a : Assembler) (l : Link) (n : Node) : a.count ≤ (a.link l n).2.count := by
  unfold link
  split <;> simp

/-- Joining the two latest branches builds one block. -/
theorem joinLatest_count {a a' : Assembler} {w : Wiring} {n : Node}
    (h : a.joinLatest w = some (n, a')) : a'.count = a.count + 1 := by
  unfold joinLatest at h
  split at h
  · obtain ⟨-, rfl⟩ := Prod.mk.inj (Option.some.inj h)
    simp
  · simp at h

/-- Building a condition and placing it moves the id counter on. -/
theorem count_lt_link_keep (a : Assembler) (c : Option String) (body : NodeBody) (l : Link) :
    a.count < ((a.keep c body).2.link l (a.keep c body).1).2.count := by
  have := count_le_link (a.keep c body).2 l (a.keep c body).1
  simp only [keep_count] at this
  omega

/-- A row that builds something moves the id counter on. -/
theorem count_lt_of_step {a a' : Assembler} {row : Row} {n : Node}
    (h : a.step row = some (n, a')) : a.count < a'.count := by
  unfold step at h
  split at h
  · simp at h
  · split at h
    next l _ _ =>
      obtain ⟨body, -, h⟩ := Option.map_eq_some_iff.mp h
      have := count_lt_link_keep a row.comment body l
      rw [h] at this
      exact this
    next l _ _ =>
      obtain ⟨body, -, h⟩ := Option.map_eq_some_iff.mp h
      have := count_lt_link_keep a row.comment body l
      rw [h] at this
      exact this
    next => simp [joinLatest_count h]
    next =>
      obtain ⟨body, -, h⟩ := Option.map_eq_some_iff.mp h
      obtain ⟨-, rfl⟩ := Prod.mk.inj h
      simp

end Assembler

end RelayLadder
