import RelayLadder.Text.Printable

/-!
# Quoted text in messages

An error message shows the text it complains about between quotes, so that blanks, quotes
and invisible characters can be seen. The text is put between single quotes, or between
double quotes when it holds a single quote and no double quote. Inside, the backslash and
the chosen quote are escaped with a backslash; tab, line feed and carriage return are written
as their escapes; other characters that are not printable are written by their code point in
hexadecimal, with two, four or eight digits.
-/

namespace RelayLadder.Text

/-- The lowercase hexadecimal digits of a number, padded with zeros to `width` digits. -/
def hexPadded (width n : Nat) : List Char :=
  let ds := Nat.toDigits 16 n
  List.replicate (width - ds.length) '0' ++ ds

/-- The escape of a character that is not printable, by the size of its code point. -/
def codeEscape (c : Char) : List Char :=
  if c.toNat < 0x100 then '\\' :: 'x' :: hexPadded 2 c.toNat
  else if c.toNat < 0x10000 then '\\' :: 'u' :: hexPadded 4 c.toNat
  else '\\' :: 'U' :: hexPadded 8 c.toNat

/-- How one character is written between the quote marks `q`. -/
def quoteChar (q c : Char) : List Char :=
  if c = q ∨ c = '\\' then ['\\', c]
  else if c = '\t' then ['\\', 't']
  else if c = '\n' then ['\\', 'n']
  else if c = '\r' then ['\\', 'r']
  else if isPrintable c then [c]
  else codeEscape c

/-- The quote mark that encloses a text: a double quote when the text holds a single quote
and no double quote, else a single quote. -/
def quoteMark (s : String) : Char :=
  if s.toList.contains '\'' && !s.toList.contains '"' then '"' else '\''

/-- A text as a message shows it: enclosed in its quote mark, with escapes inside. -/
def quoted (s : String) : String :=
  let q := quoteMark s
  String.ofList (q :: s.toList.flatMap (quoteChar q) ++ [q])

end RelayLadder.Text
