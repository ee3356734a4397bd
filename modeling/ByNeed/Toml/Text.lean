import ByNeed.Toml.Scan

/-!
# Strings of documents

Basic strings stand in quotation marks and know escapes; literal strings stand in
apostrophes and know none.  Either may be written over several lines with threefold
marks, where a line break right after the opening is not part of the string.
-/

namespace ByNeed
namespace Toml

def hexValue? (character : Char) : Option Nat :=
  if '0' ≤ character ∧ character ≤ '9' then
    some (character.toNat - '0'.toNat)
  else if 'a' ≤ character ∧ character ≤ 'f' then
    some (character.toNat - 'a'.toNat + 10)
  else if 'A' ≤ character ∧ character ≤ 'F' then
    some (character.toNat - 'A'.toNat + 10)
  else
    none

/-- The character with a number written in hexadecimal digits. -/
def scalar? (digits : List Char) : Option Char := do
  let values ← digits.mapM hexValue?
  let number := values.foldl (fun total digit => total * 16 + digit) 0
  if number.isValidChar then some (Char.ofNat number) else none

/-- The character a one-letter escape stands for. -/
def escape? : Char → Option Char
  | 'b' => some '\x08'
  | 't' => some '\t'
  | 'n' => some '\n'
  | 'f' => some '\x0c'
  | 'r' => some '\r'
  | '\x22' => some '\x22'
  | '\\' => some '\\'
  | _ => none

/-- The rest of a basic string on one line, up to its closing mark. -/
def basicRest : Scan (List Char)
  | '\x22' :: rest => some ([], rest)
  | '\\' :: 'u' :: a :: b :: c :: d :: rest => do
      let character ← scalar? [a, b, c, d]
      let (characters, rest) ← basicRest rest
      some (character :: characters, rest)
  | '\\' :: 'U' :: a :: b :: c :: d :: e :: f :: g :: h :: rest => do
      let character ← scalar? [a, b, c, d, e, f, g, h]
      let (characters, rest) ← basicRest rest
      some (character :: characters, rest)
  | '\\' :: letter :: rest => do
      let character ← escape? letter
      let (characters, rest) ← basicRest rest
      some (character :: characters, rest)
  | character :: rest => do
      if Scan.isPlain character then
        let (characters, rest) ← basicRest rest
        some (character :: characters, rest)
      else
        none
  | [] => none

/-- The rest of a literal string on one line, up to its closing mark. -/
def literalRest : Scan (List Char)
  | '\x27' :: rest => some ([], rest)
  | character :: rest => do
      if Scan.isPlain character then
        let (characters, rest) ← literalRest rest
        some (character :: characters, rest)
      else
        none
  | [] => none

/-- How many marks a text begins with. -/
def countMarks (mark : Char) (input : List Char) : Nat :=
  (input.takeWhile (· == mark)).length

/-- Whether nothing but blanks stands before the end of the line. -/
def endsLine (input : List Char) : Bool :=
  (Scan.newline (input.dropWhile Scan.isBlank)).isSome

/-- The rest of a basic string over several lines.  Up to two marks before the
closing three are part of the string.  After a backslash that ends a line, blanks and
line breaks are skipped. -/
def basicLines : Bool → Scan (List Char)
  | _, [] => none
  | _, '\x22' :: rest =>
    let marks := countMarks '\x22' rest + 1
    if 3 ≤ marks then
      if marks ≤ 5 then
        some (List.replicate (marks - 3) '\x22', rest.drop (marks - 1))
      else
        none
    else
      (basicLines false rest).map fun (characters, rest) => ('\x22' :: characters, rest)
  | _, '\\' :: rest =>
    if endsLine rest then
      basicLines true rest
    else
      match rest with
      | 'u' :: a :: b :: c :: d :: rest => do
          let character ← scalar? [a, b, c, d]
          let (characters, rest) ← basicLines false rest
          some (character :: characters, rest)
      | 'U' :: a :: b :: c :: d :: e :: f :: g :: h :: rest => do
          let character ← scalar? [a, b, c, d, e, f, g, h]
          let (characters, rest) ← basicLines false rest
          some (character :: characters, rest)
      | letter :: rest => do
          let character ← escape? letter
          let (characters, rest) ← basicLines false rest
          some (character :: characters, rest)
      | [] => none
  | skipping, '\r' :: '\n' :: rest =>
    if skipping then
      basicLines true rest
    else
      (basicLines false rest).map fun (characters, rest) => ('\n' :: characters, rest)
  | skipping, character :: rest =>
    if skipping && (Scan.isBlank character || character == '\n') then
      basicLines true rest
    else if Scan.isPlain character || character == '\n' then
      (basicLines false rest).map fun (characters, rest) => (character :: characters, rest)
    else
      none

/-- The rest of a literal string over several lines. -/
def literalLines : Scan (List Char)
  | [] => none
  | '\x27' :: rest =>
    let marks := countMarks '\x27' rest + 1
    if 3 ≤ marks then
      if marks ≤ 5 then
        some (List.replicate (marks - 3) '\x27', rest.drop (marks - 1))
      else
        none
    else
      (literalLines rest).map fun (characters, rest) => ('\x27' :: characters, rest)
  | '\r' :: '\n' :: rest =>
    (literalLines rest).map fun (characters, rest) => ('\n' :: characters, rest)
  | character :: rest =>
    if Scan.isPlain character || character == '\n' then
      (literalLines rest).map fun (characters, rest) => (character :: characters, rest)
    else
      none

def lineString : Scan String := do
  let mark ← Scan.next
  if mark == '\x22' then
    return String.ofList (← basicRest)
  else if mark == '\x27' then
    return String.ofList (← literalRest)
  else
    failure

def blockString : Scan String := do
  let mark ← Scan.next
  if mark == '\x22' then
    Scan.expectAll ['\x22', '\x22']
    let _ ← Scan.optional Scan.newline
    return String.ofList (← basicLines false)
  else if mark == '\x27' then
    Scan.expectAll ['\x27', '\x27']
    let _ ← Scan.optional Scan.newline
    return String.ofList (← literalLines)
  else
    failure

def string : Scan String := fun input =>
  let mark := input.headD ' '
  if 3 ≤ countMarks mark input then blockString input else lineString input

end Toml
end ByNeed
