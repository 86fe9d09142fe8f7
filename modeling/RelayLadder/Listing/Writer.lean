import RelayLadder.Program.Basic
import RelayLadder.Text.Delimited

/-!
# Writing a program as a listing

Each network is written as the instructions that rebuild it: its logic tree as one branch,
then its taps. A leaf is loaded (`LOAD` with the contact's suffix, or `LD` with the
comparison sign). A block loads its first child that yields a branch; after that a leaf
child of a series block is joined with `AND`, and any other child is loaded as a branch of
its own and joined with `ANDB` (series) or `ORB` (parallel). Only contacts and comparisons
can stand on the logic path.

Rows are numbered from one across the whole listing, carry their network's step, and are
written as comma-separated records, one per line.
-/

namespace RelayLadder

/-- Why a network cannot be written. -/
inductive ListingError where
  /-- A node that is not a condition stands on the logic path. -/
  | offPath (kind : String)
  /-- A node that is not a tap is written as one. -/
  | notOutput (kind : String)
  deriving DecidableEq, Repr

/-- The message that reports a listing error. -/
def ListingError.message : ListingError → String
  | .offPath k => "Cannot emit " ++ k ++ " node on the logic path"
  | .notOutput k => "Cannot emit " ++ k ++ " node as an output"

/-- One instruction as written: mnemonic, three operand texts and comment. -/
structure ListingLine where
  instruction : String
  operand1 : String := ""
  operand2 : String := ""
  operand3 : String := ""
  comment : String := ""
  deriving DecidableEq, Repr

/-- The line of a condition, with the mnemonic prefix `LOAD` or `AND`; a comparison loads
with `LD`. -/
def conditionLine (pre : String) (n : Node) : Except ListingError ListingLine :=
  let comment := n.comment.getD ""
  match n.body with
  | .contact t a => .ok { instruction := pre ++ t.suffix, operand1 := a.format, comment }
  | .comparison op l r =>
    .ok { instruction := (if pre == "LOAD" then "LD" else pre) ++ op.symbol,
          operand1 := l.text, operand2 := r.text, comment }
  | _ => .error (.offPath n.kind)

/-- The line that joins the two latest branches. -/
def joinLine : Wiring → ListingLine
  | .series => { instruction := "ANDB" }
  | .parallel => { instruction := "ORB" }

/-- The lines that load the tree under a node as one branch, down to a depth, and whether
they load anything. -/
def loadLines (nodes : List Node) : Nat → Node → Except ListingError (List ListingLine × Bool)
  | 0, _ => .ok ([], false)
  | depth + 1, n =>
    match n.body with
    | .block w ids =>
      (ids.filterMap (lookupNode nodes)).foldlM (fun (acc : List ListingLine × Bool) c =>
        if !acc.2 then do
          let (ls, p) ← loadLines nodes depth c
          pure (acc.1 ++ ls, p)
        else if w == .series && !c.body.isBlock then do
          let l ← conditionLine "AND" c
          pure (acc.1 ++ [l], true)
        else do
          let (ls, p) ← loadLines nodes depth c
          pure (acc.1 ++ ls ++ (if p then [joinLine w] else []), true)) ([], false)
    | _ => do
      let l ← conditionLine "LOAD" n
      pure ([l], true)

/-- The line of a tap. -/
def tapLine (n : Node) : Except ListingError ListingLine :=
  let comment := n.comment.getD ""
  match n.body with
  | .coil t a neg =>
    .ok { instruction := t.mnemonic ++ (if neg then "N" else ""), operand1 := a.format, comment }
  | .timer t a p tb =>
    .ok { instruction := t.name, operand1 := a.format, operand2 := toString p,
          operand3 := tb.name, comment }
  | .counter t a p =>
    .ok { instruction := t.name, operand1 := a.format, operand2 := toString p, comment }
  | .math .mov src _ dst =>
    .ok { instruction := "MOV", operand1 := src.text, operand2 := dst.format, comment }
  | .math op src src2 dst =>
    .ok { instruction := op.name, operand1 := src.text,
          operand2 := (src2.map Operand.text).getD "", operand3 := dst.format, comment }
  | _ => .error (.notOutput n.kind)

/-- The lines of a network: its logic tree as one branch, then its taps. -/
def networkLines (net : Network) : Except ListingError (List ListingLine) := do
  let tree ← match net.root? with
    | some r => (·.1) <$> loadLines net.nodes (arenaDepth net.nodes) r
    | none => pure []
  let taps ← net.taps.mapM tapLine
  pure (tree ++ taps)

/-- The column names of a listing. -/
def listingHeader : List String :=
  ["No", "Step", "Instruction", "Operand1", "Operand2", "Operand3", "Comment"]

/-- A record as one line of text. -/
def recordText (fields : List String) : String :=
  (Text.Delimited.writeRecord fields).push Text.Delimited.recordEnd

/-- The text of a line with its number and step. -/
def ListingLine.text (l : ListingLine) (seq : Nat) (step : Int) : String :=
  recordText [toString seq, toString step, l.instruction, l.operand1, l.operand2, l.operand3,
    l.comment]

/-- The listing of networks, with the column names first when asked. -/
def listingOf (nets : List Network) (header : Bool := true) : Except ListingError String := do
  let perNet ← nets.mapM fun net => (fun ls => ls.map (net.step, ·)) <$> networkLines net
  let lines := perNet.flatten
  let body := (lines.zipIdx.map fun ((step, l), i) => l.text (i + 1) step)
  pure (String.join ((if header then [recordText listingHeader] else []) ++ body))

/-- The listing of a program. -/
def Program.listing (p : Program) (header : Bool := true) : Except ListingError String :=
  listingOf p.networks header

end RelayLadder
