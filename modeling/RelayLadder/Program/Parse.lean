import RelayLadder.Program.Build
import RelayLadder.Validation.Validate
import RelayLadder.Config

/-!
# Parsing a listing in one call

The entry point of the library: read the rows of a listing, build the program from them and,
unless told not to, validate it with the validator settings of a configuration. The result
keeps the rows read and the rows grouped by step beside the program.
-/

namespace RelayLadder

/-- What parsing a listing gives: the program, the report of its validation when it was
validated, the rows read and the rows grouped by step. -/
structure ParseResult where
  program : Program
  validation : Option Report
  rows : List Row := []
  groupedRows : List (Nat × List Row) := []
  deriving DecidableEq, Repr

/-- A parse is valid unless it was validated and the report holds an error. -/
def ParseResult.valid (r : ParseResult) : Bool := (r.validation.map Report.valid).getD true

/-- Parses a listing: reads its rows, builds the program with the metadata and, when `check`
holds, validates it with the configuration's validator settings. -/
def parseProgram (text : String) (metadata : Metadata := {}) (check : Bool := true)
    (config : Config := {}) : ParseResult :=
  let rows := readRows text
  let program := buildProgram rows metadata
  { program, rows,
    validation := if check then some (validate config.validatorSettings program) else none,
    groupedRows := groupByStep rows }

end RelayLadder
