import RelayLadder.Device.Address

/-!
# Target addresses

The field protocol sees four flat address spaces: coils and discrete inputs hold bits,
holding and input registers hold words. A target address is a space and a number, written
with the space's prefix, a colon and the number (`HR:1000`).

The prefix is read without regard to case, in the way a case-insensitive pattern compares
letters: by their simple lower case, so that the dotless small i and the dotted capital I
both stand for the letter i. The prefix is then taken in upper case to find its space. The
dotted capital I stays itself in upper case, so a prefix written with it names no space.
-/

namespace RelayLadder

/-- The address spaces of the field protocol. -/
inductive MemoryType where
  | coil
  | discreteInput
  | holdingRegister
  | inputRegister
  deriving DecidableEq, Repr, Inhabited

namespace MemoryType

/-- Every address space, in the order of the protocol. -/
def all : List MemoryType := [coil, discreteInput, holdingRegister, inputRegister]

/-- The prefix that writes a space. -/
def prefixText : MemoryType → String
  | coil => "C"
  | discreteInput => "DI"
  | holdingRegister => "HR"
  | inputRegister => "IR"

/-- The name of a space. -/
def name : MemoryType → String
  | coil => "coil"
  | discreteInput => "discrete-input"
  | holdingRegister => "holding-register"
  | inputRegister => "input-register"

/-- The space with a name. -/
def ofName? (s : String) : Option MemoryType := all.find? (·.name == s)

/-- The space written by an upper-case prefix. -/
def ofPrefix? (s : String) : Option MemoryType := all.find? (·.prefixText == s)

/-- Coils and discrete inputs hold bits. -/
def isBit : MemoryType → Bool
  | coil | discreteInput => true
  | holdingRegister | inputRegister => false

end MemoryType

/-- An address in the protocol's memory. -/
structure TargetAddress where
  memoryType : MemoryType
  number : Nat
  deriving DecidableEq, Repr, Inhabited

namespace TargetAddress

/-- The text of a target address: prefix, colon, number. -/
def format (t : TargetAddress) : String := t.memoryType.prefixText ++ ":" ++ toString t.number

/-- Whether a character stands for an upper-case ASCII letter of a prefix when case is
ignored: the letter itself, its lower case, and for I also the dotless small i and the
dotted capital I. -/
def letterMatches (letter c : Char) : Bool :=
  c == letter || c == letter.toLower
    || (letter == 'I' && (c == Char.ofNat 0x130 || c == Char.ofNat 0x131))

/-- The characters of a text that spell a prefix when case is ignored, and the rest. -/
def matchPrefix (pre : List Char) (cs : List Char) : Option (List Char × List Char) :=
  if pre.length ≤ cs.length && (pre.zip cs).all fun (l, c) => letterMatches l c then
    some (cs.take pre.length, cs.drop pre.length)
  else none

/-- The prefix at the start of a text, when one is followed by a colon and a run of decimal
digits that ends the text, with the number of those digits. -/
def shape? (cs : List Char) : Option (List Char × Nat) :=
  (MemoryType.all.map (·.prefixText.toList)).findSome? fun pre =>
    match matchPrefix pre cs with
    | some (spelled, ':' :: rest) =>
      match readDigits rest with
      | some (n, []) => some (spelled, n)
      | _ => none
    | _ => none

/-- Reads a target address leniently: blanks around it are dropped and the prefix is read
without regard to case. None when the text has no address shape; an error when its prefix
names no space in upper case. -/
def parse? (s : String) : Except AddressError (Option TargetAddress) :=
  match shape? (Text.trim s).toList with
  | none => .ok none
  | some (spelled, n) =>
    let pre := Text.upper (String.ofList spelled)
    match MemoryType.ofPrefix? pre with
    | some m => .ok (some ⟨m, n⟩)
    | none => .error (.targetPrefix pre)

/-- Reads a target address, reporting the text when it is none. -/
def parse (s : String) : Except AddressError TargetAddress :=
  match parse? s with
  | .ok (some t) => .ok t
  | .ok none => .error (.target s)
  | .error e => .error e

example : (parse? " hr:7").toOption = some (some ⟨.holdingRegister, 7⟩) := by
  decide +kernel

end TargetAddress

end RelayLadder
