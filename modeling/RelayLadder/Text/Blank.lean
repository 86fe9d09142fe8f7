/-!
# Blank characters and trimming

A listing is trimmed with the Unicode notion of white space, not only the ASCII one: a
no-break space or an ideographic space around a field is dropped like a plain space.
This module holds that class of characters and the trimming built on it.
-/

namespace RelayLadder.Text

/-- Code points of the white-space characters: tab to carriage return, the four
information separators, space, next line, no-break space, ogham space mark, the spaces
from en quad to hair space, the line and paragraph separators, narrow no-break space,
medium mathematical space and ideographic space. -/
def blankCodes : List Nat :=
  [0x9, 0xa, 0xb, 0xc, 0xd, 0x1c, 0x1d, 0x1e, 0x1f, 0x20, 0x85, 0xa0, 0x1680,
   0x2000, 0x2001, 0x2002, 0x2003, 0x2004, 0x2005, 0x2006, 0x2007, 0x2008, 0x2009, 0x200a,
   0x2028, 0x2029, 0x202f, 0x205f, 0x3000]

/-- A character is blank when it is one of the white-space characters. -/
def isBlank (c : Char) : Bool := blankCodes.contains c.toNat

/-- Drops the blank characters at both ends of a list of characters. -/
def trimChars (cs : List Char) : List Char :=
  ((cs.dropWhile isBlank).reverse.dropWhile isBlank).reverse

/-- Drops the blank characters at both ends of a text. -/
def trim (s : String) : String := String.ofList (trimChars s.toList)

/-- Whether a text holds nothing but blank characters (the empty text included). -/
def isBlankText (s : String) : Bool := s.toList.all isBlank

example : isBlank '\u3000' = true := by decide

end RelayLadder.Text
