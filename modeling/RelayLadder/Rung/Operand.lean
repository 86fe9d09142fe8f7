import RelayLadder.Device.Address

/-!
# Operands

An operand of a comparison or an arithmetic instruction is a constant or a device address.
Its text is read as a decimal constant (an optional minus and digits of any script), then
as a hexadecimal constant (`H` or `0x` and ASCII hexadecimal digits, in either case), then
as a device address; the first reading that succeeds wins.
-/

namespace RelayLadder

/-- A constant or a device address used as a value. -/
inductive Operand where
  | address (a : DeviceAddress)
  | immediate (value : Int)
  deriving DecidableEq, Repr, Inhabited

namespace Operand

/-- The text of an operand: the canonical address or the decimal constant. -/
def text : Operand → String
  | address a => a.format
  | immediate v => toString v

/-- The address of an operand that is one. -/
def address? : Operand → Option DeviceAddress
  | address a => some a
  | immediate _ => none

/-- The value of an ASCII hexadecimal digit, in either case. -/
def hexDigit? (c : Char) : Option Nat :=
  if '0' ≤ c && c ≤ '9' then some (c.toNat - '0'.toNat)
  else if 'A' ≤ c && c ≤ 'F' then some (c.toNat - 'A'.toNat + 10)
  else if 'a' ≤ c && c ≤ 'f' then some (c.toNat - 'a'.toNat + 10)
  else none

/-- The number that a non-empty run of hexadecimal digits writes. -/
def hexValue? (cs : List Char) : Option Nat :=
  if cs.isEmpty then none
  else cs.foldlM (fun acc c => (hexDigit? c).map (acc * 16 + ·)) 0

/-- A decimal constant: an optional minus sign and decimal digits of any script. -/
def decimal? : List Char → Option Int
  | '-' :: ds => (Text.digitsValue? ds).map fun n => -(n : Int)
  | ds => (Text.digitsValue? ds).map Int.ofNat

/-- A hexadecimal constant: `H` or `0x`, in either case, then hexadecimal digits. -/
def hexadecimal? : List Char → Option Nat
  | 'H' :: ds | 'h' :: ds => hexValue? ds
  | '0' :: 'x' :: ds | '0' :: 'X' :: ds => hexValue? ds
  | _ => none

/-- Reads an operand from a text with blanks around it; none for an empty text or one that
is neither a constant nor an address. -/
def parse? (s : String) : Option Operand :=
  let cs := (Text.trim s).toList
  if cs.isEmpty then none
  else match decimal? cs with
    | some v => some (immediate v)
    | none =>
      match hexadecimal? cs with
      | some v => some (immediate v)
      | none => (DeviceAddress.parse? s).map address

/-- Reads an operand that may be absent. -/
def parseOpt? : Option String → Option Operand
  | some s => parse? s
  | none => none

example : parse? "0x1F" = some (immediate 31) := by decide +kernel

end Operand

end RelayLadder
