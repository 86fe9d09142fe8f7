import RelayLadder.Text.Blank
import RelayLadder.Text.Case
import RelayLadder.Text.Digit
import RelayLadder.Text.Quoted

/-!
# Device addresses

A device address names one element of the controller's own memory: a device letter, an
element number, an optional bit index into a word and an optional index register whose
runtime value shifts the element (`D0100.5[Z3]`). Bit devices hold one boolean per element;
word devices hold a sixteen-bit word, read as a boolean through a bit index.

Reading is lenient about case, blanks around the text and the script of the digits; the
canonical text pads the number to four digits. A bit index above fifteen is refused.
-/

namespace RelayLadder

/-- The device memories of the controller. -/
inductive Device where
  /-- Input/output relays. -/
  | P
  /-- Auxiliary relays. -/
  | M
  /-- Keep relays. -/
  | K
  /-- Special relays. -/
  | F
  /-- Timer contacts. -/
  | T
  /-- Counter contacts. -/
  | C
  /-- Data registers. -/
  | D
  /-- Retentive data registers. -/
  | R
  /-- Index registers. -/
  | Z
  /-- Link data registers. -/
  | N
  deriving DecidableEq, Repr, Inhabited

namespace Device

/-- Every device, in the order of the device table. -/
def all : List Device := [P, M, K, F, T, C, D, R, Z, N]

/-- The letter that names a device. -/
def letter : Device → Char
  | P => 'P' | M => 'M' | K => 'K' | F => 'F' | T => 'T'
  | C => 'C' | D => 'D' | R => 'R' | Z => 'Z' | N => 'N'

/-- The letter of a device as a text. -/
def name (d : Device) : String := String.singleton d.letter

/-- The device named by a letter. -/
def ofChar? (c : Char) : Option Device := all.find? (·.letter == c)

/-- The device named by a text that is exactly its letter. -/
def ofName? (s : String) : Option Device := all.find? (·.name == s)

/-- Bit devices hold one boolean per element: P, M, K, F, T and C. -/
def isBit : Device → Bool
  | P | M | K | F | T | C => true
  | D | R | Z | N => false

/-- Word devices hold a sixteen-bit word per element: D, R, Z and N. -/
def isWord (d : Device) : Bool := !d.isBit

/-- Devices are ordered by their letters. -/
def lt (a b : Device) : Bool := a.letter < b.letter

theorem ofChar_letter (d : Device) : ofChar? d.letter = some d := by
  cases d <;> rfl

end Device

/-- Why a text is not an address. -/
inductive AddressError where
  /-- The text is no device address. -/
  | device (text : String)
  /-- The text is no target address. -/
  | target (text : String)
  /-- The text has the shape of a target address, but its prefix in upper case names no
  address space. -/
  | targetPrefix (text : String)
  deriving DecidableEq, Repr

/-- The message that reports an address error, quoting the text as given; an unknown
prefix is reported as it is. -/
def AddressError.message : AddressError → String
  | .device t => "Invalid device address: " ++ Text.quoted t
  | .target t => "Invalid target address: " ++ Text.quoted t
  | .targetPrefix t => t

/-- An element of device memory, possibly a bit of a word, possibly shifted by an index
register. -/
structure DeviceAddress where
  device : Device
  number : Nat
  bitIndex : Option Nat := none
  indexRegister : Option Nat := none
  deriving DecidableEq, Repr, Inhabited

/-- Splits off the longest run of leading decimal digits and reads it; none when the text
does not start with a digit. -/
def readDigits (cs : List Char) : Option (Nat × List Char) :=
  let (ds, rest) := cs.span Text.isDigit
  (Text.digitsValue? ds).map (·, rest)

/-- The decimal digits of a number, padded with zeros to at least `width` digits. -/
def zeroPadded (width n : Nat) : String :=
  let ds := Nat.toDigits 10 n
  String.ofList (List.replicate (width - ds.length) '0' ++ ds)

namespace DeviceAddress

/-- The highest bit index of a word. -/
def maxBitIndex : Nat := 15

/-- Whether an index register shifts the element at runtime. -/
def isIndexed (a : DeviceAddress) : Bool := a.indexRegister.isSome

/-- Whether the address reads one bit of a word device. -/
def isWordBit (a : DeviceAddress) : Bool := a.bitIndex.isSome && a.device.isWord

/-- The canonical text: device letter, number padded to four digits, then `.bit` and
`[Zn]` when present. -/
def format (a : DeviceAddress) : String :=
  a.device.name ++ zeroPadded 4 a.number
    ++ (match a.bitIndex with | some b => "." ++ toString b | none => "")
    ++ (match a.indexRegister with | some z => "[Z" ++ toString z ++ "]" | none => "")

/-- Reads an address from upper-case characters: a device letter, digits, optionally a
point and digits, optionally `[Z`, digits and `]`, and nothing more. -/
def ofChars? : List Char → Option DeviceAddress
  | [] => none
  | c :: rest => do
    let device ← Device.ofChar? c
    let (number, rest) ← readDigits rest
    let (bitIndex, rest) ← match rest with
      | '.' :: r => (readDigits r).map fun (b, r') => (some b, r')
      | r => some (none, r)
    let (indexRegister, rest) ← match rest with
      | '[' :: 'Z' :: r =>
        match readDigits r with
        | some (z, ']' :: r') => some (some z, r')
        | _ => none
      | r => some (none, r)
    if rest.isEmpty && bitIndex.all (· ≤ maxBitIndex) then
      some ⟨device, number, bitIndex, indexRegister⟩
    else none

/-- Reads a device address leniently: blanks around it are dropped and case is ignored.
None when the text is no address or its bit index is above fifteen. -/
def parse? (s : String) : Option DeviceAddress :=
  ofChars? (Text.upper (Text.trim s)).toList

/-- Reads a device address, reporting the text when it is none. -/
def parse (s : String) : Except AddressError DeviceAddress :=
  match parse? s with
  | some a => .ok a
  | none => .error (.device s)

example : parse? "d0100.8[z3]" = some ⟨.D, 100, some 8, some 3⟩ := by
  decide +kernel

end DeviceAddress

end RelayLadder
