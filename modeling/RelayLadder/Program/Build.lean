import RelayLadder.Program.Basic
import RelayLadder.Rung.Assembler
import RelayLadder.Rung.Layout

/-!
# Building a program from listing rows

The rows of a listing are grouped by step, and each step becomes a network, in ascending
order of steps, with the id `network_<step>`. The rows of a step are assembled into a logic
tree and taps; the tree is laid out from the top-left cell, and the taps follow it, one per
row, in the column just right of the tree. Node ids run on from one network to the next.

The symbol table holds every operand that starts with a letter and reads as a device
address, under its canonical text, in the order first met; the first row that refers to it
gives its comment, trimmed, unless that comment is empty. An address is boolean when its
device holds bits or it names a bit of a word, else a word.
-/

namespace RelayLadder

/-- The first comment of a list of rows that is not blank, trimmed. -/
def firstComment (rows : List Row) : Option String :=
  rows.findSome? fun r =>
    match r.comment with
    | some c => if Text.isBlankText c then none else some (Text.trim c)
    | none => none

/-- Assembles one more row: the state after it, and the taps so far followed by the row's
own when it built one. -/
def assembleRow (acc : Assembler × List Node) (r : Row) : Assembler × List Node :=
  match acc.1.step r with
  | some (n, a) => (a, if n.body.isTap then acc.2 ++ [n] else acc.2)
  | none => acc

/-- Assembles the rows of a list in order: the state after them and the taps they built. -/
def assembleRows (a : Assembler) (rows : List Row) : Assembler × List Node :=
  rows.foldl assembleRow (a, [])

/-- Builds the network of one step from its rows, with the assembler's id counter carried
on; the state after it is returned for the next network. -/
def buildNetwork (a : Assembler) (step : Int) (rows : List Row) : Network × Assembler :=
  let (a, taps) := assembleRows a.reset rows
  let (root, a) := a.result
  let (tree, width) : List Node × Nat := match root with
    | some r =>
      match layout a.nodes r with
      | .ok (placed, span) => (placed, span.cols)
      | .error _ => ([], 0)
    | none => ([], 0)
  let placedTaps := (taps.zipIdx).map fun (t, i) => t.placeAt ⟨i, width⟩
  ({ id := "network_" ++ toString step, step, nodes := tree ++ placedTaps,
     rootId := root.map (·.id), comment := firstComment rows }, a)

/-- Inserts a step into an ascending list of distinct steps. -/
def insertStep (s : Nat) : List Nat → List Nat
  | [] => [s]
  | t :: ts => if s < t then s :: t :: ts else if s == t then t :: ts else t :: insertStep s ts

/-- The distinct steps of the rows, ascending. -/
def stepsOf (rows : List Row) : List Nat := rows.foldl (fun acc r => insertStep r.step acc) []

/-- Whether an address is read as a boolean: its device holds bits or it names a bit. -/
def DeviceAddress.isBoolean (a : DeviceAddress) : Bool := a.device.isBit || a.bitIndex.isSome

/-- Adds the symbol of an address, unless its key is already there. -/
def addSymbol (syms : List Symbol) (a : DeviceAddress) (comment : Option String) : List Symbol :=
  if syms.any (·.key == a.format) then syms
  else syms ++ [{ key := a.format, address := a, comment,
                  dataType := some (if a.isBoolean then .bool else .word) }]

/-- Whether a text starts with an ASCII letter. An operand that reads as an address and does
not start with a blank starts with the letter of its device, in either case, and no blank is a
letter of any script; so on the operands that matter this test decides as a test for any
letter does. -/
def startsWithLetter (s : String) : Bool := s.toList.head?.any Char.isAlpha

/-- The address an operand names to the symbol table: an operand that starts with a letter and
reads as an address. -/
def symbolAddress? (op : Option String) : Option DeviceAddress :=
  (op.filter startsWithLetter).bind DeviceAddress.parse?

/-- The comment a row gives the symbols it opens: trimmed, and none when it is empty. -/
def Row.symbolComment (r : Row) : Option String :=
  r.comment.bind fun c => if c.isEmpty then none else some (Text.trim c)

/-- The symbol table of rows: every operand that starts with a letter and reads as a device
address, first met first, with the comment of the row that first refers to it. -/
def symbolTable (rows : List Row) : List Symbol :=
  rows.foldl (fun syms r =>
    r.operands.foldl (fun syms op =>
      match symbolAddress? op with
      | some a => addSymbol syms a r.symbolComment
      | none => syms) syms) []

/-- Builds the network of one more step from its group of rows, after the networks built so
far, with the ids running on. -/
def addNetwork (groups : List (Nat × List Row)) (acc : List Network × Assembler) (s : Nat) :
    List Network × Assembler :=
  let (net, a) := buildNetwork acc.2 (Int.ofNat s) ((groups.lookup s).getD [])
  (acc.1 ++ [net], a)

/-- Builds the networks of all steps in ascending order, ids running on. -/
def buildNetworks (rows : List Row) : List Network :=
  ((stepsOf rows).foldl (addNetwork (groupByStep rows)) ([], {})).1

/-- Builds a program from rows. -/
def buildProgram (rows : List Row) (metadata : Metadata := {}) : Program :=
  { metadata, networks := buildNetworks rows, symbols := symbolTable rows }

/-- Builds one network from the rows of a listing text, whatever their steps. -/
def buildSingleNetwork (text : String) (step : Int := 0) : Network :=
  (buildNetwork {} step (readRows text)).1

end RelayLadder
