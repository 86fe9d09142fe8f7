import RelayLadder.Proofs.Forest

/-! # Rows that build nothing

A row builds nothing exactly when its mnemonic is unknown, when an operand that its
instruction needs does not read, or when it joins the two latest branches of a stack that
holds fewer than two. Such a row leaves the whole state of the assembler as it was: stack,
pending branches, arena and counter. Every other row moves the counter on, by two when an
`AND` condition joins the latest branch in a series block (the condition and the block each
take an id), and by one otherwise.
-/

namespace RelayLadder

/-- How a condition instruction places its condition; none for the other instructions. -/
def Instruction.link? : Instruction → Option Link
  | .contact l _ | .compare l _ => some l
  | _ => none

namespace Assembler

/-- Whether a row builds nothing on a state: its mnemonic is unknown; a contact, coil, timer or
counter has no first operand that reads as a device address; a comparison lacks an operand
that reads; arithmetic lacks a source, or a destination device (the second operand of a move,
the third of the others); or a join finds fewer than two branches. -/
def refuses (a : Assembler) (row : Row) : Bool :=
  match lookupInstruction row.instruction with
  | none => true
  | some (.contact ..) | some (.coil ..) | some (.timer _) | some (.counter _) =>
    (row.operand1.bind DeviceAddress.parse?).isNone
  | some (.compare ..) =>
    (Operand.parseOpt? row.operand1).isNone || (Operand.parseOpt? row.operand2).isNone
  | some (.math op) =>
    (Operand.parseOpt? row.operand1).isNone ||
      ((if op = .mov then row.operand2 else row.operand3).bind DeviceAddress.parse?).isNone
  | some (.joinBranches _) => decide (a.stack.length < 2)

/-- Whether a row is an `AND` condition met by a non-empty stack, so that its condition joins
the latest branch in a series block. -/
def joinsInSeries (a : Assembler) (row : Row) : Bool :=
  (lookupInstruction row.instruction).bind Instruction.link? == some .and && !a.stack.isEmpty

/-- Placing a condition built on a state takes one id, and one more for the series block when
an `AND` meets a non-empty stack. -/
theorem count_link_keep (a : Assembler) (c : Option String) (body : NodeBody) (l : Link) :
    ((a.keep c body).2.link l (a.keep c body).1).2.count =
      a.count + if l = .and ∧ a.stack ≠ [] then 2 else 1 := by
  cases l <;> cases hs : a.stack <;> simp [link, keep, fresh, join, hs]

/-- A row builds nothing exactly when it is refused. -/
theorem step_eq_none_iff (a : Assembler) (row : Row) : a.step row = none ↔ a.refuses row = true := by
  unfold step refuses
  cases hi : lookupInstruction row.instruction with
  | none => simp
  | some i =>
    cases i with
    | contact l t => simp [conditionBody]
    | compare l op =>
      cases h1 : Operand.parseOpt? row.operand1 <;> cases h2 : Operand.parseOpt? row.operand2 <;>
        simp [conditionBody, h1, h2]
    | joinBranches w =>
      simp only [joinLatest]
      rcases hs : a.stack with _ | ⟨x, _ | ⟨y, rest⟩⟩ <;> simp
    | coil t neg | timer t | counter t => simp [tapBody]
    | math op =>
      cases op with
      | mov =>
        cases h1 : Operand.parseOpt? row.operand1 <;>
          cases hd : row.operand2.bind DeviceAddress.parse? <;> simp [tapBody, h1, hd]
      | add | sub | mul | div =>
        cases h1 : Operand.parseOpt? row.operand1 <;>
          cases hd : row.operand3.bind DeviceAddress.parse? <;> simp [tapBody, h1, hd]

/-- A row that builds something moves the counter on by two when an `AND` condition joins the
latest branch in a series block, and by one otherwise. -/
theorem count_step {a a' : Assembler} {row : Row} {n : Node} (h : a.step row = some (n, a')) :
    a'.count = a.count + if a.joinsInSeries row then 2 else 1 := by
  unfold step at h
  cases hi : lookupInstruction row.instruction with
  | none => simp [hi] at h
  | some i =>
    rw [hi] at h
    cases i with
    | contact l t | compare l t =>
      obtain ⟨body, -, h⟩ := Option.map_eq_some_iff.mp h
      have hc := count_link_keep a row.comment body l
      rw [h] at hc
      cases l <;> cases hs : a.stack <;>
        simp_all [joinsInSeries, Instruction.link?]
    | joinBranches w =>
      simp [joinsInSeries, hi, Instruction.link?, joinLatest_count h]
    | coil t neg | timer t | counter t | math t =>
      obtain ⟨body, -, h⟩ := Option.map_eq_some_iff.mp h
      obtain ⟨-, rfl⟩ := Prod.mk.inj h
      simp [joinsInSeries, hi, Instruction.link?]

example : ({ stack := [{ id := "a", body := .contact .no ⟨.M, 1, none, none⟩ }] } : Assembler).refuses
    { sequence := 1, step := 0, instruction := "ANDB" } = true := by decide

end Assembler

end RelayLadder
