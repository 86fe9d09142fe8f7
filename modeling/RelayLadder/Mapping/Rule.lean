import RelayLadder.Target.Address

/-!
# Mapping rules

Each device is mapped into one address space of the field protocol from an offset: element
`n` lands at number `offset + n`. A mapper configuration lists at most one rule per device,
and also says where the current values of timers and counters live, the highest target
number (if any) and which devices are read-only from the protocol side.
-/

namespace RelayLadder

/-- Maps a device into an address space from an offset. -/
structure MappingRule where
  device : Device
  memoryType : MemoryType
  offset : Nat
  deriving DecidableEq, Repr, Inhabited

/-- The rules of the reference controller: bit devices onto discrete inputs and coils, word
devices onto holding registers. -/
def defaultRules : List MappingRule :=
  [⟨.P, .discreteInput, 0⟩, ⟨.M, .coil, 0⟩, ⟨.K, .coil, 8192⟩, ⟨.T, .coil, 10240⟩,
   ⟨.C, .coil, 12288⟩, ⟨.F, .discreteInput, 2048⟩, ⟨.D, .holdingRegister, 0⟩,
   ⟨.R, .holdingRegister, 10000⟩, ⟨.Z, .holdingRegister, 20000⟩, ⟨.N, .holdingRegister, 20016⟩]

/-- How the mapper maps. -/
structure MapperSettings where
  rules : List MappingRule := defaultRules
  timerValueOffset : Nat := 28208
  counterValueOffset : Nat := 30256
  /-- Targets above this number cannot be mapped; none means no limit. -/
  maxTargetAddress : Option Nat := none
  /-- Devices whose state is derived rather than set from outside. -/
  readOnly : List Device := [.F, .T, .C]
  deriving DecidableEq, Repr, Inhabited

/-- The first device that has a rule earlier in a list. -/
def repeatedDevice (rules : List MappingRule) : Option Device :=
  (rules.foldl (fun (acc : List Device × Option Device) r =>
    match acc.2 with
    | some d => (acc.1, some d)
    | none => if acc.1.contains r.device then (acc.1, some r.device) else (r.device :: acc.1, none))
    ([], none)).2

/-- Why mapper settings are not well formed: a second rule for a device. -/
def MapperSettings.problem? (s : MapperSettings) : Option String :=
  (repeatedDevice s.rules).map fun d => "Duplicate mapping rule for device " ++ d.name

/-- Puts a rule in place of the rule for its device, or at the end. -/
def putRule (rules : List MappingRule) (r : MappingRule) : List MappingRule :=
  if rules.any (·.device == r.device) then rules.map fun q => if q.device == r.device then r else q
  else rules ++ [r]

/-- Rules merged over a base: a later rule for a device replaces the earlier one in its
place. -/
def mergeRules (base : List MappingRule) (rules : List MappingRule) : List MappingRule :=
  rules.foldl putRule (base.foldl putRule [])

end RelayLadder
