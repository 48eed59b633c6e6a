import DateScheduling.Text.GraphemeExtend
import DateScheduling.Text.Ignorable
import DateScheduling.Text.Unprintable

/-!
# Quoted text

Text inside a message stands in double quotes.  A quote and a backslash get a
backslash in front; NUL, tab, carriage return and line feed have short escapes;
every other character that could not be seen by itself is written as its code
point in lower-case hexadecimal, between braces after `\u`.  These are the
characters that have no printed form, are not displayed, or attach to the
character before them.
-/

namespace DateScheduling
namespace Text

/-- The halfwidth katakana sound marks.  They extend a grapheme, but they are
letters with a width of their own. -/
def halfwidthSoundMarks : List (Nat × Nat) :=
  [(0xFF9E, 0xFF9F)]

/-- The character attaches to the one before it and takes no place of its
own. -/
def isAttached (c : Char) : Bool :=
  extendsGrapheme c && !inRanges halfwidthSoundMarks c

/-- The character can be seen when it stands by itself. -/
def isVisible (c : Char) : Bool :=
  !isAttached c && !isUnprintable c && !isIgnorable c

/-- The code point of a character in hexadecimal, as an escape. -/
def escapeCode (c : Char) : List Char :=
  ['\\', 'u', '\x7b'] ++ Nat.toDigits 16 c.toNat ++ ['\x7d']

/-- A character as it stands inside quotes. -/
def escapeChar (c : Char) : List Char :=
  if c = '"' then ['\\', '"']
  else if c = '\\' then ['\\', '\\']
  else if c = '\x00' then ['\\', '0']
  else if c = '\t' then ['\\', 't']
  else if c = '\r' then ['\\', 'r']
  else if c = '\n' then ['\\', 'n']
  else if isVisible c then [c]
  else escapeCode c

/-- A text in double quotes. -/
def quote (text : String) : String :=
  String.ofList ('"' :: text.toList.flatMap escapeChar ++ ['"'])

end Text
end DateScheduling
