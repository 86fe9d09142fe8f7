import RelayLadder.Rung.Node

/-!
# Findings and reports

A finding is one problem the validator saw: what it is, a message, and where (the network,
the node, or for an output driven from several networks, all of them). Each kind of problem
is an error or a warning and belongs to a category. A report lists the errors and the
warnings, each in the order found; a program is valid when there is no error.
-/

namespace RelayLadder

/-- The category of a problem. -/
inductive Category where
  | address | readOnly | deviceType | preset
  /-- The shape of a network or block. -/
  | form
  | duplicateOutput
  deriving DecidableEq, Repr, Inhabited

/-- The name of a category. -/
def Category.name : Category → String
  | .address => "address" | .readOnly => "read-only" | .deviceType => "device-type"
  | .preset => "preset" | .form => "structure" | .duplicateOutput => "duplicate-output"

/-- The problems the validator reports. -/
inductive Problem where
  | addressOutOfRange
  | bitIndexOutOfRange
  | indexRegisterOutOfRange
  | wordContactWithoutBit
  | readOnlyWrite
  | timerDeviceMismatch
  | counterDeviceMismatch
  | nonPositivePreset
  | blockTooSmall
  | emptyNetwork
  | noOutput
  | duplicateOutput
  deriving DecidableEq, Repr, Inhabited

namespace Problem

/-- The code of a problem. -/
def code : Problem → String
  | addressOutOfRange => "ADDRESS_OUT_OF_RANGE"
  | bitIndexOutOfRange => "BIT_INDEX_OUT_OF_RANGE"
  | indexRegisterOutOfRange => "INDEX_REGISTER_OUT_OF_RANGE"
  | wordContactWithoutBit => "WORD_CONTACT_WITHOUT_BIT"
  | readOnlyWrite => "READ_ONLY_WRITE"
  | timerDeviceMismatch => "TIMER_DEVICE_MISMATCH"
  | counterDeviceMismatch => "COUNTER_DEVICE_MISMATCH"
  | nonPositivePreset => "NON_POSITIVE_PRESET"
  | blockTooSmall => "BLOCK_TOO_SMALL"
  | emptyNetwork => "EMPTY_NETWORK"
  | noOutput => "NO_OUTPUT"
  | duplicateOutput => "DUPLICATE_OUTPUT"

/-- Errors make a program invalid; the other problems are warnings. -/
def isError : Problem → Bool
  | addressOutOfRange | bitIndexOutOfRange | indexRegisterOutOfRange | readOnlyWrite
  | timerDeviceMismatch | counterDeviceMismatch | blockTooSmall => true
  | wordContactWithoutBit | nonPositivePreset | emptyNetwork | noOutput | duplicateOutput => false

/-- The category of a problem. -/
def category : Problem → Category
  | addressOutOfRange | bitIndexOutOfRange | indexRegisterOutOfRange
  | wordContactWithoutBit => .address
  | readOnlyWrite => .readOnly
  | timerDeviceMismatch | counterDeviceMismatch => .deviceType
  | nonPositivePreset => .preset
  | blockTooSmall | emptyNetwork | noOutput => .form
  | duplicateOutput => .duplicateOutput

end Problem

/-- One problem seen, with its message and place. -/
structure Finding where
  problem : Problem
  message : String
  networkId : Option String := none
  nodeId : Option String := none
  networkIds : List String := []
  deriving DecidableEq, Repr, Inhabited

/-- The findings of a validation, errors apart from warnings. -/
structure Report where
  errors : List Finding := []
  warnings : List Finding := []
  deriving DecidableEq, Repr, Inhabited

namespace Report

/-- The report of findings in the order found. -/
def ofFindings (fs : List Finding) : Report :=
  ⟨fs.filter (·.problem.isError), fs.filter (!·.problem.isError)⟩

/-- A program is valid when no finding is an error. -/
def valid (r : Report) : Bool := r.errors.isEmpty

theorem valid_iff (r : Report) : r.valid = true ↔ r.errors = [] := by
  simp [valid]

@[simp] theorem ofFindings_errors (fs : List Finding) :
    (ofFindings fs).errors = fs.filter (·.problem.isError) := rfl

/-- A validation is valid exactly when none of its findings is an error. -/
theorem ofFindings_valid_iff (fs : List Finding) :
    (ofFindings fs).valid = true ↔ ∀ f ∈ fs, f.problem.isError = false := by
  simp [valid, ofFindings, List.filter_eq_nil_iff]

/-- The codes of the errors, then of the warnings. -/
def codes (r : Report) : List String := (r.errors ++ r.warnings).map (·.problem.code)

/-- The counts of errors and warnings in words. -/
def summary (r : Report) : String :=
  let parts := (if r.errors.isEmpty then [] else [toString r.errors.length ++ " error(s)"])
    ++ (if r.warnings.isEmpty then [] else [toString r.warnings.length ++ " warning(s)"])
  if parts.isEmpty then "No findings." else ", ".intercalate parts ++ "."

end Report

end RelayLadder
