import RelayLadder.Config
import RelayLadder.Device.Address
import RelayLadder.Listing.Mnemonic
import RelayLadder.Listing.Row
import RelayLadder.Listing.Writer
import RelayLadder.Mapping.Mapper
import RelayLadder.Mapping.Rule
import RelayLadder.Program.Basic
import RelayLadder.Program.Build
import RelayLadder.Program.Parse
import RelayLadder.Rung.Assembler
import RelayLadder.Rung.Grid
import RelayLadder.Rung.Layout
import RelayLadder.Rung.Network
import RelayLadder.Rung.Node
import RelayLadder.Rung.Operand
import RelayLadder.Rung.Tree
import RelayLadder.Target.Address
import RelayLadder.Text.Blank
import RelayLadder.Text.Case
import RelayLadder.Text.Delimited
import RelayLadder.Text.Digit
import RelayLadder.Text.Printable
import RelayLadder.Text.Quoted
import RelayLadder.Validation.Report
import RelayLadder.Validation.Settings
import RelayLadder.Validation.Validate
import RelayLadder.Proofs.Branch
import RelayLadder.Proofs.Forest
import RelayLadder.Proofs.Placement
import RelayLadder.Proofs.Shape
import RelayLadder.Proofs.Issue
import RelayLadder.Proofs.Findings
import RelayLadder.Proofs.Program
import RelayLadder.Proofs.WellFormed
import RelayLadder.Proofs.Measure
import RelayLadder.Proofs.Records
import RelayLadder.Proofs.Canonical
import RelayLadder.Proofs.Lines
import RelayLadder.Proofs.Refusal
import RelayLadder.Proofs.Order
import RelayLadder.Proofs.Unfold
import RelayLadder.Proofs.Binarise
import RelayLadder.Proofs.Rebuild
import RelayLadder.Proofs.RoundTrip
import RelayLadder.Proofs.Readings
import RelayLadder.Proofs.Tiling
import RelayLadder.Proofs.TreeLayout
import RelayLadder.Proofs.Mapping
import RelayLadder.Proofs.Validity
import RelayLadder.Proofs.Symbols
import RelayLadder.Proofs.Interleaving
import RelayLadder.Proofs.Cursor
import RelayLadder.Proofs.RowFields
