import RelayLadder.Text.Blank
import RelayLadder.Text.Case
import RelayLadder.Text.Digit
import RelayLadder.Text.Delimited

/-!
# Listing rows

A mnemonic listing has one instruction per line, in seven comma-separated columns: sequence
number, step, instruction, three operands and a comment. A row is a line whose sequence
number and step are ASCII digits and whose instruction is not empty; every other line is
malformed and is skipped. Fields are trimmed, the instruction is taken in upper case and an
empty operand or comment is absent.

A listing text is read into data lines: line ends of every convention are unified, blank
lines are dropped, and a first line that reads as a column header is dropped too. A row
cursor walks the data lines and yields the rows among them.
-/

namespace RelayLadder

/-- One instruction of a listing. -/
structure Row where
  sequence : Nat
  step : Nat
  instruction : String
  operand1 : Option String := none
  operand2 : Option String := none
  operand3 : Option String := none
  comment : Option String := none
  deriving DecidableEq, Repr, Inhabited

namespace Row

/-- The three operands, in column order. -/
def operands (r : Row) : List (Option String) := [r.operand1, r.operand2, r.operand3]

/-- The field in a column when it is present and not empty. -/
def field? (fs : List String) (i : Nat) : Option String :=
  match fs[i]? with
  | some f => if f.isEmpty then none else some f
  | none => none

/-- The number that a non-empty run of ASCII digits writes. -/
def asciiNumber? (s : String) : Option Nat :=
  if s.toList.all Text.isAsciiDigit then Text.digitsValue? s.toList else none

/-- The row that trimmed fields make: at least three fields, a sequence number and a step
of ASCII digits and a non-empty instruction. Fields past the seventh are ignored. -/
def ofFields? (fs : List String) : Option Row :=
  match fs with
  | seq :: step :: instr :: _ => do
    let sequence ← asciiNumber? seq
    let step ← asciiNumber? step
    if instr.isEmpty then none
    else some {
      sequence, step, instruction := Text.upper instr,
      operand1 := field? fs 3, operand2 := field? fs 4, operand3 := field? fs 5,
      comment := field? fs 6 }
  | _ => none

/-- Reads one line: an error when it is no record at all, none when it is a malformed row. -/
def parse (line : String) : Except Text.Delimited.RecordError (Option Row) :=
  (Text.Delimited.readLine line).map fun fs => ofFields? (fs.map Text.trim)

/-- Reads one line that is a record, as every data line of a listing is; none for a line
that is a malformed row or no record. -/
def parse? (line : String) : Option Row :=
  match parse line with
  | .ok r => r
  | .error _ => none

end Row

/-- Replaces every carriage return with a line feed, a carriage return and line feed pair
by a single line feed. -/
def unifyLineEnds : List Char → List Char
  | '\r' :: '\n' :: r => '\n' :: unifyLineEnds r
  | '\r' :: r => '\n' :: unifyLineEnds r
  | c :: r => c :: unifyLineEnds r
  | [] => []

/-- Whether a needle occurs in a text as a contiguous piece. -/
def containsText (hay needle : List Char) : Bool :=
  match hay with
  | [] => needle.isEmpty
  | c :: rest => needle.isPrefixOf (c :: rest) || containsText rest needle

/-- A line is a column header when, in lower case, it mentions "no" and also "step" or
"instruction". -/
def isHeader (line : String) : Bool :=
  let low := (Text.asciiLower line).toList
  containsText low "no".toList && (containsText low "step".toList || containsText low "instruction".toList)

/-- A cursor over the data lines of a listing. -/
structure RowCursor where
  /-- The data lines: not blank, the header left out. -/
  lines : List String
  /-- Whether the first non-blank line was a header and was left out. -/
  headerSkipped : Bool
  /-- The number of data lines already passed. -/
  pos : Nat := 0
  deriving Repr

namespace RowCursor

/-- The lines of a text, split at line ends of every convention, without the blank ones. -/
def textLines (text : String) : List String :=
  (((unifyLineEnds text.toList).splitOn '\n').map String.ofList).filter fun l => !Text.isBlankText l

/-- A cursor at the first data line of a listing text. -/
def ofText (text : String) : RowCursor :=
  match textLines text with
  | first :: rest => if isHeader first then ⟨rest, true, 0⟩ else ⟨first :: rest, false, 0⟩
  | [] => ⟨[], false, 0⟩

/-- The number of data lines. -/
def lineCount (c : RowCursor) : Nat := c.lines.length

/-- Whether a data line is left, well-formed or not. -/
def hasMore (c : RowCursor) : Bool := c.pos < c.lines.length

/-- The cursor back at the first data line. -/
def reset (c : RowCursor) : RowCursor := { c with pos := 0 }

/-- The first row among lines that start at position `j`, with the position after it. -/
def firstRow : List String → Nat → Option (Row × Nat)
  | [], _ => none
  | l :: ls, j =>
    match Row.parse? l with
    | some r => some (r, j + 1)
    | none => firstRow ls (j + 1)

/-- The next row, skipping malformed lines; at the end, none and the cursor at the end. -/
def next (c : RowCursor) : Option Row × RowCursor :=
  match firstRow (c.lines.drop c.pos) c.pos with
  | some (r, p) => (some r, { c with pos := p })
  | none => (none, { c with pos := c.lines.length })

/-- The next row, leaving the cursor where it is. -/
def peek (c : RowCursor) : Option Row := (c.next).1

/-- All rows from the cursor on, and the cursor at the end. -/
def readAll (c : RowCursor) : List Row × RowCursor :=
  ((c.lines.drop c.pos).filterMap Row.parse?, { c with pos := c.lines.length })

@[simp] theorem reset_pos (c : RowCursor) : c.reset.pos = 0 := rfl

@[simp] theorem reset_lines (c : RowCursor) : c.reset.lines = c.lines := rfl

@[simp] theorem readAll_pos (c : RowCursor) : c.readAll.2.pos = c.lineCount := rfl

@[simp] theorem next_lines (c : RowCursor) : c.next.2.lines = c.lines := by
  unfold next; split <;> rfl

theorem hasMore_iff (c : RowCursor) : c.hasMore = true ↔ c.pos < c.lineCount := by
  simp [hasMore, lineCount]

/-- The first row after a position lies past it, and never past the lines. -/
theorem firstRow_pos_le : ∀ (ls : List String) (j : Nat) (r : Row) (p : Nat),
    firstRow ls j = some (r, p) → j < p ∧ p ≤ j + ls.length
  | [], _, _, _, h => by simp [firstRow] at h
  | l :: ls, j, r, p, h => by
    unfold firstRow at h
    split at h
    · obtain ⟨-, rfl⟩ := Prod.mk.inj (Option.some.inj h)
      simp
    · have := firstRow_pos_le ls (j + 1) r p h
      simp only [List.length_cons]
      omega

end RowCursor

/-- The rows of a listing text, in order. -/
def readRows (text : String) : List Row := (RowCursor.ofText text).readAll.1

/-- Adds a row to the group of its step, opening a group after the others for a new step. -/
def addToGroup (groups : List (Nat × List Row)) (r : Row) : List (Nat × List Row) :=
  if groups.any (·.1 == r.step) then
    groups.map fun g => if g.1 == r.step then (g.1, g.2 ++ [r]) else g
  else groups ++ [(r.step, [r])]

/-- Rows grouped by step: groups in the order their steps first occur, rows in order. -/
def groupByStep (rows : List Row) : List (Nat × List Row) := rows.foldl addToGroup []

example : isHeader "No,Step,Instruction,Operand1" = true := by decide +kernel

end RelayLadder
