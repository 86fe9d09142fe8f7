import RelayLadder.Rung.Node
import RelayLadder.Text.Blank
import RelayLadder.Text.Case

/-!
# The instruction set

Every mnemonic of a listing has a fixed meaning: a condition that loads, joins in series
(`AND`) or joins in parallel (`OR`); a join of the two latest branches (`ANDB`, `ORB`); or
a tap: a coil, a timer, a counter or arithmetic. Conditions are contacts (`LOAD`, `AND`,
`OR` with the suffix `N`, `P` or `F` for a normally closed, rising or falling contact) or
comparisons (`LD`, `AND`, `OR` followed by a comparison sign).
-/

namespace RelayLadder

/-- How a condition joins the logic built so far. -/
inductive Link where
  /-- Starts a new branch. -/
  | load
  /-- Joins the latest branch in series. -/
  | and
  /-- Waits to join the branch in parallel when the rung is finished. -/
  | or
  deriving DecidableEq, Repr, Inhabited

/-- The name of a link. -/
def Link.name : Link → String
  | .load => "load" | .and => "and" | .or => "or"

/-- The meaning of a mnemonic. -/
inductive Instruction where
  /-- A contact on a device bit. -/
  | contact (link : Link) (type : ContactType)
  /-- A comparison of two operands. -/
  | compare (link : Link) (op : Comparison)
  /-- Joins the two latest branches (`ANDB` in series, `ORB` in parallel). -/
  | joinBranches (wiring : Wiring)
  /-- A coil, possibly negated. -/
  | coil (type : CoilType) (negated : Bool)
  /-- A timer. -/
  | timer (type : TimerType)
  /-- A counter. -/
  | counter (type : CounterType)
  /-- Arithmetic or a move. -/
  | math (op : MathOperator)
  deriving DecidableEq, Repr, Inhabited

namespace Instruction

/-- The family of an instruction, by how it acts on the branches being built. -/
def family : Instruction → String
  | contact l _ | compare l _ => l.name
  | joinBranches .series => "andb"
  | joinBranches .parallel => "orb"
  | coil .. => "output"
  | timer _ => "timer"
  | counter _ => "counter"
  | math _ => "math"

end Instruction

/-- The comparisons by the length of their sign, longest first, so that `>=` is found before
`>`: `>=`, `<=`, `<>`, `=`, `>`, `<`. -/
def comparisonsLongestFirst : List Comparison := [.ge, .le, .ne, .eq, .gt, .lt]

/-- The first comparison, longest sign first, whose sign occurs in a text. -/
def extractComparison (text : String) : Option Comparison :=
  comparisonsLongestFirst.find? fun op => containsSign text.toList op.symbol.toList
where
  /-- Whether a sign occurs in a text as a contiguous piece. -/
  containsSign (hay needle : List Char) : Bool :=
    match hay with
    | [] => needle.isEmpty
    | c :: rest => needle.isPrefixOf (c :: rest) || containsSign rest needle

/-- The condition mnemonics that start with a prefix, one per contact type. -/
def contactMnemonics (pre : String) (link : Link) : List (String × Instruction) :=
  ContactType.all.map fun t => (pre ++ t.suffix, .contact link t)

/-- The comparison mnemonics that start with a prefix, one per comparison. -/
def comparisonMnemonics (pre : String) (link : Link) : List (String × Instruction) :=
  Comparison.all.map fun op => (pre ++ op.symbol, .compare link op)

/-- Every mnemonic with its meaning. -/
def mnemonicTable : List (String × Instruction) :=
  contactMnemonics "LOAD" .load ++ contactMnemonics "AND" .and ++ contactMnemonics "OR" .or
    ++ [("LOADA", .contact .load .no)]
    ++ comparisonMnemonics "LD" .load ++ comparisonMnemonics "AND" .and
    ++ comparisonMnemonics "OR" .or
    ++ [("ANDB", .joinBranches .series), ("ORB", .joinBranches .parallel),
        ("OUT", .coil .out false), ("OUTN", .coil .out true),
        ("SET", .coil .set false), ("RST", .coil .rst false)]
    ++ TimerType.all.map (fun t => (t.name, .timer t))
    ++ CounterType.all.map (fun t => (t.name, .counter t))
    ++ MathOperator.all.map (fun op => (op.name, .math op))

/-- The meaning of an instruction text, read with blanks around it dropped and in upper
case; none when it is no mnemonic. -/
def lookupInstruction (text : String) : Option Instruction :=
  mnemonicTable.lookup (Text.upper (Text.trim text))

example : extractComparison "<>=" = some .ge := by decide

end RelayLadder
