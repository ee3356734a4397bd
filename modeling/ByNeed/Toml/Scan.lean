/-!
# Scanning text

A scanner takes characters off the front of a text and gives a result and what is
left, or fails.  Scanners that fail leave the text as it was, so that another may
be tried.
-/

namespace ByNeed
namespace Toml

/-- Take characters off the front of a text. -/
abbrev Scan := StateT (List Char) Option

namespace Scan

def next : Scan Char
  | [] => none
  | character :: rest => some (character, rest)

/-- The next character, which is not taken. -/
def peek : Scan (Option Char) := fun input =>
  some (input.head?, input)

/-- The next character, which has to be of some sort. -/
def satisfy (sort : Char → Bool) : Scan Char := do
  let character ← next
  if sort character then return character else failure

/-- One given character. -/
def expect (character : Char) : Scan Unit := do
  let _ ← satisfy (· == character)

/-- Given characters, one after the other. -/
def expectAll : List Char → Scan Unit
  | [] => return ()
  | character :: rest => do
      expect character
      expectAll rest

/-- All characters of some sort, as far as they go. -/
def takeWhile (sort : Char → Bool) : Scan (List Char) := fun input =>
  some (input.takeWhile sort, input.dropWhile sort)

/-- Nothing, at the end of the text. -/
def atEnd : Scan Unit
  | [] => some ((), [])
  | _ :: _ => none

/-- The text a scanner takes. -/
def taken {α : Type} (scan : Scan α) : Scan String := fun input =>
  match scan input with
  | none => none
  | some (_, rest) => some (String.ofList (input.take (input.length - rest.length)), rest)

/-- What a scanner gives, or nothing where it fails. -/
def optional {α : Type} (scan : Scan α) : Scan (Option α) := fun input =>
  match scan input with
  | none => some (none, input)
  | some (result, rest) => some (some result, rest)

/-- Whether a character separates on a line. -/
def isBlank (character : Char) : Bool :=
  character == ' ' || character == '\t'

def blanks : Scan Unit := do
  let _ ← takeWhile isBlank

def newline : Scan Unit
  | '\n' :: rest => some ((), rest)
  | '\r' :: '\n' :: rest => some ((), rest)
  | _ => none

/-- Whether a character may stand in a comment. -/
def isPlain (character : Char) : Bool :=
  character == '\t' || (' ' ≤ character && character != '\x7f')

/-- A comment, up to the end of its line. -/
def comment : Scan Unit := do
  expect '#'
  let _ ← takeWhile isPlain

/-- The rest of a line, on which nothing but a comment may stand. -/
def lineEnd : Scan Unit := do
  blanks
  let _ ← optional comment
  newline <|> atEnd

/-- Blanks, comments and ends of lines, within a bound on their number. -/
def gap : Nat → Scan Unit
  | 0 => return ()
  | bound + 1 => do
      blanks
      let _ ← optional comment
      match ← optional newline with
      | some _ => gap bound
      | none => return ()

/-- Blanks, comments and ends of lines. -/
def gaps : Scan Unit := fun input =>
  gap input.length input

end Scan
end Toml
end ByNeed
