import RelayLadder.Rung.Operand

/-!
# Logic nodes

A rung is a tree of logic nodes. Blocks join their children in series (left to right, all
must hold) or in parallel (stacked, one must hold); contacts and comparisons are the leaves
on the logic path. Coils, timers, counters and arithmetic hang off the path as taps: they
act on the result of the path and do not join it.

Nodes live in a flat arena: a block names its children by id, and a tree is resolved
through the nodes of its network. Every node carries the grid cell where layout put it.
-/

namespace RelayLadder

/-- How a contact reads its bit. -/
inductive ContactType where
  | no | nc | rising | falling
  deriving DecidableEq, Repr, Inhabited

/-- How a coil drives its bit. -/
inductive CoilType where
  | out | set | rst
  deriving DecidableEq, Repr, Inhabited

/-- On-delay, off-delay and retentive timers. -/
inductive TimerType where
  | ton | tof | tmr
  deriving DecidableEq, Repr, Inhabited

/-- Up, down and up-down counters. -/
inductive CounterType where
  | ctu | ctd | ctud
  deriving DecidableEq, Repr, Inhabited

/-- The unit of a timer preset. -/
inductive TimeBase where
  | ms | s
  deriving DecidableEq, Repr, Inhabited

/-- The comparisons of two operands. -/
inductive Comparison where
  | eq | gt | lt | ge | le | ne
  deriving DecidableEq, Repr, Inhabited

/-- Arithmetic into a destination, and the plain move. -/
inductive MathOperator where
  | add | sub | mul | div | mov
  deriving DecidableEq, Repr, Inhabited

/-- How a block joins its children. -/
inductive Wiring where
  | series | parallel
  deriving DecidableEq, Repr, Inhabited

namespace ContactType
def all : List ContactType := [no, nc, rising, falling]
def name : ContactType → String
  | no => "no" | nc => "nc" | rising => "rising" | falling => "falling"
/-- The letter that follows a condition mnemonic for this contact type. -/
def suffix : ContactType → String
  | no => "" | nc => "N" | rising => "P" | falling => "F"
def ofName? (s : String) : Option ContactType := all.find? (·.name == s)
end ContactType

namespace CoilType
def all : List CoilType := [out, set, rst]
def name : CoilType → String
  | out => "out" | set => "set" | rst => "rst"
/-- The mnemonic that drives a coil this way. -/
def mnemonic : CoilType → String
  | out => "OUT" | set => "SET" | rst => "RST"
def ofName? (s : String) : Option CoilType := all.find? (·.name == s)
end CoilType

namespace TimerType
def all : List TimerType := [ton, tof, tmr]
def name : TimerType → String
  | ton => "TON" | tof => "TOF" | tmr => "TMR"
def ofName? (s : String) : Option TimerType := all.find? (·.name == s)
end TimerType

namespace CounterType
def all : List CounterType := [ctu, ctd, ctud]
def name : CounterType → String
  | ctu => "CTU" | ctd => "CTD" | ctud => "CTUD"
def ofName? (s : String) : Option CounterType := all.find? (·.name == s)
end CounterType

namespace TimeBase
def all : List TimeBase := [ms, s]
def name : TimeBase → String
  | ms => "ms" | s => "s"
def ofName? (t : String) : Option TimeBase := all.find? (·.name == t)
end TimeBase

namespace Comparison
/-- The comparisons in the order of their declaration. -/
def all : List Comparison := [eq, gt, lt, ge, le, ne]
def symbol : Comparison → String
  | eq => "=" | gt => ">" | lt => "<" | ge => ">=" | le => "<=" | ne => "<>"
def ofSymbol? (s : String) : Option Comparison := all.find? (·.symbol == s)
end Comparison

namespace MathOperator
def all : List MathOperator := [add, sub, mul, div, mov]
def name : MathOperator → String
  | add => "ADD" | sub => "SUB" | mul => "MUL" | div => "DIV" | mov => "MOV"
def ofName? (s : String) : Option MathOperator := all.find? (·.name == s)
end MathOperator

namespace Wiring
def all : List Wiring := [series, parallel]
def name : Wiring → String
  | series => "series" | parallel => "parallel"
def ofName? (s : String) : Option Wiring := all.find? (·.name == s)
end Wiring

/-- A cell of the rung's grid; rows grow downwards, columns to the right. -/
structure Cell where
  row : Int := 0
  col : Int := 0
  deriving DecidableEq, Repr, Inhabited

/-- What a node is, with the fields of its kind. -/
inductive NodeBody where
  | contact (type : ContactType) (address : DeviceAddress)
  | coil (type : CoilType) (address : DeviceAddress) (negated : Bool)
  | timer (type : TimerType) (address : DeviceAddress) (preset : Int) (timeBase : TimeBase)
  | counter (type : CounterType) (address : DeviceAddress) (preset : Int)
  | comparison (op : Comparison) (left right : Operand)
  | math (op : MathOperator) (source : Operand) (source2 : Option Operand)
      (destination : DeviceAddress)
  | block (wiring : Wiring) (children : List String)
  deriving DecidableEq, Repr, Inhabited

/-- A logic node: its id, comment, grid cell and body. -/
structure Node where
  id : String
  comment : Option String := none
  cell : Cell := {}
  body : NodeBody
  deriving DecidableEq, Repr, Inhabited

namespace NodeBody

/-- The name of a node's kind. -/
def kind : NodeBody → String
  | contact .. => "contact"
  | coil .. => "coil"
  | timer .. => "timer"
  | counter .. => "counter"
  | comparison .. => "comparison"
  | math .. => "math"
  | block .. => "block"

/-- The children of a block; none for a leaf. -/
def children : NodeBody → List String
  | block _ cs => cs
  | _ => []

/-- Blocks join other nodes. -/
def isBlock : NodeBody → Bool
  | block .. => true
  | _ => false

/-- Outputs drive a device: coils, timers and counters. -/
def isOutput : NodeBody → Bool
  | coil .. | timer .. | counter .. => true
  | _ => false

/-- Taps hang off the logic path: outputs and arithmetic. -/
def isTap : NodeBody → Bool
  | coil .. | timer .. | counter .. | math .. => true
  | _ => false

/-- Conditions sit on the logic path: contacts and comparisons. -/
def isCondition : NodeBody → Bool
  | contact .. | comparison .. => true
  | _ => false

/-- The device addresses a node names itself, not through its children: the address of a
contact, coil, timer or counter; the address operands of a comparison; the address
sources and then the destination of arithmetic. -/
def addresses : NodeBody → List DeviceAddress
  | contact _ a | coil _ a _ | timer _ a _ _ | counter _ a _ => [a]
  | comparison _ l r => [l, r].filterMap Operand.address?
  | math _ src src2 dst => ([some src, src2].filterMap id).filterMap Operand.address? ++ [dst]
  | block .. => []

/-- Why a node body is not well formed: a move takes a single source. -/
def problem? : NodeBody → Option String
  | math .mov _ (some _) _ => some "MOV takes a single source operand"
  | _ => none

end NodeBody

namespace Node

/-- The kind of a node. -/
def kind (n : Node) : String := n.body.kind

/-- The node moved to a cell. -/
def placeAt (n : Node) (c : Cell) : Node := { n with cell := c }

end Node

end RelayLadder
