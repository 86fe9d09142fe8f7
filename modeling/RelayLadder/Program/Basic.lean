import RelayLadder.Rung.Network

/-!
# Programs

A program is its metadata, its networks in order and a symbol table: the device addresses
it refers to, each under its canonical text, with a comment and a data type. A symbol table
is well formed when every key is the canonical text of its entry's address.
-/

namespace RelayLadder

/-- Descriptive data of a program. -/
structure Metadata where
  name : String := "Untitled Program"
  description : Option String := none
  author : Option String := none
  createdAt : Option String := none
  modifiedAt : Option String := none
  version : String := "1.0.0"
  plcModel : Option String := none
  deriving DecidableEq, Repr, Inhabited

/-- The data type of a symbol. -/
inductive DataType where
  | bool | int | word | dword | real
  deriving DecidableEq, Repr, Inhabited

namespace DataType
def all : List DataType := [bool, int, word, dword, real]
def name : DataType → String
  | bool => "BOOL" | int => "INT" | word => "WORD" | dword => "DWORD" | real => "REAL"
def ofName? (s : String) : Option DataType := all.find? (·.name == s)
end DataType

/-- A referenced address under its key. -/
structure Symbol where
  key : String
  address : DeviceAddress
  symbol : Option String := none
  comment : Option String := none
  dataType : Option DataType := none
  deriving DecidableEq, Repr, Inhabited

/-- Why a symbol table is not well formed: the first key that is not the canonical text of
its address, as a message. -/
def symbolsProblem? (symbols : List Symbol) : Option String :=
  symbols.findSome? fun s =>
    if s.key == s.address.format then none
    else some ("Symbol key " ++ Text.quoted s.key ++ " does not match address " ++ s.address.format)

/-- A whole program. -/
structure Program where
  metadata : Metadata := {}
  networks : List Network := []
  symbols : List Symbol := []
  deriving DecidableEq, Repr, Inhabited

end RelayLadder
