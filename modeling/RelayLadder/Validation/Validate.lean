import RelayLadder.Program.Basic
import RelayLadder.Validation.Report
import RelayLadder.Validation.Settings

/-!
# Validating a program

Each network is checked in order, and each of its nodes in list order: every address the
node names against the device sizes, the highest bit index and the highest index register;
a contact on a word without a bit index; a write to a protected device by a coil or an
arithmetic destination; a timer or counter on a device of the wrong kind (which is then
also checked as a write) and its preset; a block with fewer than two children. An empty
network is reported alone, and a network without an output is reported after its nodes.
Last, each output address driven from more than one network is reported once.
-/

namespace RelayLadder

namespace ValidatorSettings

variable (cfg : ValidatorSettings)

/-- The findings on one address of a node. -/
def addressFindings (net node : String) (a : DeviceAddress) : List Finding :=
  let range := match cfg.limits.maxAddress? a.device with
    | some m =>
      if m < a.number then
        [{ problem := .addressOutOfRange, networkId := net, nodeId := node,
           message := "Address " ++ a.format ++ " out of range (max " ++ a.device.name
             ++ zeroPadded 4 m.toNat ++ ")" }]
      else []
    | none => []
  let bit := match a.bitIndex with
    | some b =>
      if cfg.maxBitIndex < b then
        [{ problem := .bitIndexOutOfRange, networkId := net, nodeId := node,
           message := "Bit index " ++ toString b ++ " of " ++ a.format ++ " out of range (0-"
             ++ toString cfg.maxBitIndex ++ ")" }]
      else []
    | none => []
  let index := match a.indexRegister with
    | some z =>
      if cfg.maxIndexRegister < z then
        [{ problem := .indexRegisterOutOfRange, networkId := net, nodeId := node,
           message := "Index register Z" ++ toString z ++ " of " ++ a.format
             ++ " out of range (0-" ++ toString cfg.maxIndexRegister ++ ")" }]
      else []
    | none => []
  range ++ bit ++ index

/-- A write to a protected device. -/
def writeFindings (net node : String) (a : DeviceAddress) : List Finding :=
  if cfg.writeProtected.contains a.device then
    [{ problem := .readOnlyWrite, networkId := net, nodeId := node,
       message := "Cannot write to read-only device " ++ a.format }]
  else []

/-- A timer or counter on a device of the wrong kind, and a preset that is not positive. -/
def dedicatedFindings (net node : String) (device : Device) (problem : Problem)
    (label : String) (a : DeviceAddress) (preset : Int) : List Finding :=
  let kind := if a.device == device then []
    else { problem, networkId := net, nodeId := node,
           message := label ++ " must use " ++ device.name ++ " device, got " ++ a.format }
      :: cfg.writeFindings net node a
  let p := if preset ≤ 0 then
      [{ problem := .nonPositivePreset, networkId := net, nodeId := node,
         message := label ++ " " ++ a.format ++ " has non-positive preset " ++ toString preset }]
    else []
  kind ++ p

/-- The findings on one node. -/
def nodeFindings (net : String) (n : Node) : List Finding :=
  n.body.addresses.flatMap (cfg.addressFindings net n.id) ++
  match n.body with
  | .contact _ a =>
    if a.device.isWord && a.bitIndex.isNone then
      [{ problem := .wordContactWithoutBit, networkId := net, nodeId := n.id,
         message := "Contact on word device " ++ a.format ++ " without bit index" }]
    else []
  | .coil _ a _ => cfg.writeFindings net n.id a
  | .timer _ a p _ => cfg.dedicatedFindings net n.id .T .timerDeviceMismatch "Timer" a p
  | .counter _ a p => cfg.dedicatedFindings net n.id .C .counterDeviceMismatch "Counter" a p
  | .math _ _ _ d => cfg.writeFindings net n.id d
  | .block w cs =>
    if cs.length < 2 then
      [{ problem := .blockTooSmall, networkId := net, nodeId := n.id,
         message := (match w with | .series => "Series" | .parallel => "Parallel")
           ++ " block has " ++ toString cs.length ++ " children, needs at least 2" }]
    else []
  | .comparison .. => []

/-- The findings on one network, without the duplicate outputs. -/
def networkFindings (net : Network) : List Finding :=
  if net.nodes.isEmpty then
    [{ problem := .emptyNetwork, networkId := net.id, message := "Empty network" }]
  else
    net.nodes.flatMap (cfg.nodeFindings net.id) ++
    if net.nodes.any (·.body.isOutput) then []
    else [{ problem := .noOutput, networkId := net.id,
            message := "Network has no output instruction" }]

end ValidatorSettings

/-- The address an output drives. -/
def outputAddress? (n : Node) : Option DeviceAddress :=
  match n.body with
  | .coil _ a _ | .timer _ a _ _ | .counter _ a _ => some a
  | _ => none

/-- Adds a network to the networks of an output address, first met first. -/
def addDriver (drivers : List (String × List String)) (key net : String) :
    List (String × List String) :=
  if drivers.any (·.1 == key) then
    drivers.map fun d => if d.1 == key && !d.2.contains net then (d.1, d.2 ++ [net]) else d
  else drivers ++ [(key, [net])]

/-- Each output address, by its canonical text, with the distinct networks that drive it,
in the order first met. -/
def outputDrivers (nets : List Network) : List (String × List String) :=
  nets.foldl (fun ds net =>
    net.nodes.foldl (fun ds n =>
      match outputAddress? n with
      | some a => addDriver ds a.format net.id
      | none => ds) ds) []

/-- One warning per output address driven from more than one network. -/
def duplicateOutputFindings (nets : List Network) : List Finding :=
  (outputDrivers nets).filterMap fun (key, ids) =>
    if ids.length > 1 then
      some { problem := .duplicateOutput, networkId := ids.head?, networkIds := ids,
             message := "Output " ++ key ++ " is driven by multiple networks: " ++ ", ".intercalate ids }
    else none

/-- Validates a program. -/
def validate (cfg : ValidatorSettings) (p : Program) : Report :=
  Report.ofFindings (p.networks.flatMap cfg.networkFindings ++ duplicateOutputFindings p.networks)

end RelayLadder
