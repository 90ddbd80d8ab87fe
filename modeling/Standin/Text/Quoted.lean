import Standin.Text.Ranges
import Standin.Text.Unprintable
import Standin.Text.Extenders
import Standin.Text.Ignorable

/-!
# Quoted text

A text between quotation marks on one line, with every character that a reader could not see or
would see on its neighbour written by its code point (`quoted`).
-/

namespace Standin.Text

/-- The halfwidth voiced and semi-voiced sound marks. They extend the character before them, but
they are letters with a width of their own. -/
def soundMarks : List (Nat × Nat) :=
  [(0xff9e, 0xff9f)]

/-- Whether a character is drawn on the one before it. -/
def isDrawnOn (c : Char) : Bool :=
  inRanges c.toNat graphemeExtend && !inRanges c.toNat soundMarks

/-- Whether a character of a quoted text is written by its code point. -/
def isHidden (c : Char) : Bool :=
  inRanges c.toNat unprintable || inRanges c.toNat ignorable || isDrawnOn c

/-- One character between quotation marks. -/
def quotedChar (c : Char) : List Char :=
  if c = '\x00' then ['\\', '0']
  else if c = '\t' then ['\\', 't']
  else if c = '\r' then ['\\', 'r']
  else if c = '\n' then ['\\', 'n']
  else if c = '"' then ['\\', '"']
  else if c = '\\' then ['\\', '\\']
  else if isHidden c then ['\\', 'u', '\x7b'] ++ Nat.toDigits 16 c.toNat ++ ['\x7d']
  else [c]

def quotedChars (s : List Char) : List Char :=
  '"' :: s.flatMap quotedChar ++ ['"']

/-- The text `s` between quotation marks. -/
def quoted (s : String) : String :=
  String.ofList (quotedChars s.toList)

end Standin.Text
