/-!
# Comma-separated records

A listing line is a record of comma-separated fields. A field may be enclosed in double
quotes, and then holds commas and line breaks, with a doubled quote standing for one quote.
Spaces before a field are skipped; a quote that does not open a field is an ordinary
character; a quoted field that is never closed runs to the end of the line. A line break
outside quotes ends the record, and the record is refused when more text follows it.

Writing ends every record with a line feed. It encloses a field in quotes exactly when the
field holds a comma, a quote or a line feed, and doubles the quotes inside; a carriage return
alone is written bare.
-/

namespace RelayLadder.Text.Delimited

/-- Where the reader stands within a record. -/
inductive Place where
  /-- Before the first character of the record. -/
  | recordStart
  /-- Before the first character of a field. -/
  | fieldStart
  /-- Inside a field that is not quoted. -/
  | unquoted
  /-- Inside a quoted field. -/
  | quoted
  /-- Just after a quote inside a quoted field: it closes the field or is doubled. -/
  | quoteInQuoted
  /-- After a line break that ended the record. -/
  | lineBreak
  deriving DecidableEq, Repr

/-- The reader's state: its place, the field being read and the fields read so far. -/
structure Reader where
  place : Place
  field : List Char
  fields : List String
  deriving Repr

namespace Reader

/-- The reader before a record. -/
def start : Reader := ⟨.recordStart, [], []⟩

/-- Closes the field being read. -/
def save (r : Reader) (p : Place) : Reader :=
  ⟨p, [], r.fields ++ [String.ofList r.field]⟩

/-- Adds a character to the field being read. -/
def add (r : Reader) (p : Place) (c : Char) : Reader :=
  ⟨p, r.field ++ [c], r.fields⟩

/-- Whether a character breaks lines. -/
def isLineBreak (c : Char) : Bool := c == '\n' || c == '\r'

/-- The reader at the start of a field, given its next character. -/
def atFieldStart (r : Reader) (c : Char) : Reader :=
  if isLineBreak c then r.save .lineBreak
  else if c == '"' then { r with place := .quoted }
  else if c == ' ' then r
  else if c == ',' then r.save .fieldStart
  else r.add .unquoted c

/-- Reads one character; none when text follows a line break that ended the record. -/
def feed (r : Reader) (c : Char) : Option Reader :=
  match r.place with
  | .recordStart => if isLineBreak c then some { r with place := .lineBreak } else some (r.atFieldStart c)
  | .fieldStart => some (r.atFieldStart c)
  | .unquoted =>
    if isLineBreak c then some (r.save .lineBreak)
    else if c == ',' then some (r.save .fieldStart)
    else some (r.add .unquoted c)
  | .quoted => if c == '"' then some { r with place := .quoteInQuoted } else some (r.add .quoted c)
  | .quoteInQuoted =>
    if c == '"' then some (r.add .quoted c)
    else if c == ',' then some (r.save .fieldStart)
    else if isLineBreak c then some (r.save .lineBreak)
    else some (r.add .unquoted c)
  | .lineBreak => if isLineBreak c then some r else none

/-- The fields of the record once the line has ended. A field open at the end is closed,
and a quoted field that was never closed ends with the line. -/
def finish (r : Reader) : List String :=
  match r.place with
  | .recordStart | .lineBreak => r.fields
  | .fieldStart | .unquoted | .quoted | .quoteInQuoted => (r.save .recordStart).fields

end Reader

/-- Why a line is no record. -/
inductive RecordError where
  /-- Text follows a line break outside quotes. -/
  | textAfterLineBreak
  deriving DecidableEq, Repr

/-- The message that reports a record error. -/
def RecordError.message : RecordError → String
  | .textAfterLineBreak =>
    "new-line character seen in unquoted field - do you need to open the file in universal-newline mode?"

/-- The fields of one line, untrimmed. -/
def readLine (s : String) : Except RecordError (List String) :=
  match s.toList.foldlM Reader.feed Reader.start with
  | some r => .ok r.finish
  | none => .error .textAfterLineBreak

/-- The character that ends a written record. -/
def recordEnd : Char := '\n'

/-- Whether a field must be enclosed in quotes when written: it holds a comma, a quote or the
record end. -/
def needsQuotes (f : String) : Bool :=
  f.toList.any fun c => c == ',' || c == '"' || c == recordEnd

/-- A field as written: enclosed in quotes with inner quotes doubled when it needs quotes,
else as it is. -/
def writeField (f : String) : String :=
  if needsQuotes f then
    String.ofList ('"' :: f.toList.flatMap (fun c => if c == '"' then ['"', '"'] else [c]) ++ ['"'])
  else f

theorem writeField_plain {f : String} (h : needsQuotes f = false) : writeField f = f := by
  simp [writeField, h]

/-- A record as written: its fields joined by commas, without the record end. -/
def writeRecord (fs : List String) : String := ",".intercalate (fs.map writeField)

example : writeField "a\rb" = "a\rb" := by decide

example : (readLine "1, 0,LOAD").toOption = some ["1", "0", "LOAD"] := by decide

end RelayLadder.Text.Delimited
