import RelayLadder.Device.Address

/-!
# Device limits and validator settings

The controller has a fixed number of elements of each device. A table of sizes gives them;
a device without an entry is not limited. Every size must be positive, and the first device
whose size is not is reported.

The validator also knows the devices that a program may not write (inputs and the devices
the controller drives itself), and the highest bit index and index register it accepts.
-/

namespace RelayLadder

/-- The number of elements of each device, in table order. -/
structure DeviceLimits where
  sizes : List (Device × Int) :=
    [(.P, 2048), (.M, 8192), (.K, 2048), (.F, 2048), (.T, 2048), (.C, 2048),
     (.D, 10000), (.R, 10000), (.Z, 16), (.N, 8192)]
  deriving DecidableEq, Repr, Inhabited

namespace DeviceLimits

/-- The size of a device, when the table has it. -/
def size? (l : DeviceLimits) (d : Device) : Option Int := l.sizes.lookup d

/-- The highest element number of a device, when the table has its size. -/
def maxAddress? (l : DeviceLimits) (d : Device) : Option Int := (l.size? d).map (· - 1)

/-- Whether an address lies within the size of its device; never for a device without a
size. -/
def contains (l : DeviceLimits) (a : DeviceAddress) : Bool :=
  match l.maxAddress? a.device with
  | some m => (a.number : Int) ≤ m
  | none => false

/-- Why a table of sizes is not well formed: the first size that is not positive. -/
def problem? (l : DeviceLimits) : Option String :=
  l.sizes.findSome? fun (d, s) =>
    if s ≤ 0 then some ("Device " ++ d.name ++ " must have a positive size, got " ++ toString s)
    else none

end DeviceLimits

/-- What the validator checks against. -/
structure ValidatorSettings where
  limits : DeviceLimits := {}
  /-- Devices a program may not write. -/
  writeProtected : List Device := [.P, .F, .T, .C]
  maxBitIndex : Nat := 15
  maxIndexRegister : Nat := 15
  deriving DecidableEq, Repr, Inhabited

end RelayLadder
