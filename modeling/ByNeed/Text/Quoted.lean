import ByNeed.Text.Characters

/-!
# Quoted strings

A string is quoted between double quotes.  Quotes, backslashes and the usual
control characters have short escapes; every other character that is not
printable, that would attach itself to the character before it, or that is printed
but shows nothing, is written by its code point.
-/

namespace ByNeed
namespace Text

/-- A character written by its code point, in lowercase hexadecimal. -/
def codePoint (character : Char) : List Char :=
  '\\' :: 'u' :: '\x7b' :: (Nat.toDigits 16 character.toNat ++ ['\x7d'])

/-- Whether a character is a Hangul filler: a letter that shows nothing. -/
def isFiller (character : Char) : Bool :=
  inRanges [(0x115f, 0x1160), (0x3164, 0x3164), (0xffa0, 0xffa0)] character

/-- Whether a character is a halfwidth sound mark: one that extends a grapheme but
has a place of its own. -/
def isHalfwidthMark (character : Char) : Bool :=
  inRanges [(0xff9e, 0xff9f)] character

/-- Whether a character attaches itself to the one before it. -/
def attaches (character : Char) : Bool :=
  isGraphemeExtend character && !isHalfwidthMark character

/-- Whether a character stands for itself inside quotes. -/
def isPlain (character : Char) : Bool :=
  if character.toNat < 128 then
    decide (32 ≤ character.toNat) && decide (character.toNat < 127)
  else
    isPrintable character && !attaches character && !isFiller character

/-- One character inside quotes. -/
def quoteChar (character : Char) : List Char :=
  match character with
  | '"' => ['\\', '"']
  | '\\' => ['\\', '\\']
  | '\n' => ['\\', 'n']
  | '\r' => ['\\', 'r']
  | '\t' => ['\\', 't']
  | '\x00' => ['\\', '0']
  | _ => if isPlain character then [character] else codePoint character

def quoteChars (characters : List Char) : List Char :=
  characters.flatMap quoteChar

def quote (string : String) : String :=
  String.ofList ('"' :: (quoteChars string.toList ++ ['"']))

end Text
end ByNeed
