import DeltaGraph.Toml.Value

/-!
# TOML text

The characters that a TOML document may hold, its comments and line ends, and
its four kinds of strings: basic strings with escapes, literal strings without,
and both of them over several lines.
-/

namespace DeltaGraph
namespace Toml

/-- A space or a tab. -/
def isBlank (char : Char) : Bool := char == ' ' || char == '\t'

/-- A character that is not a control, the tab apart. -/
def isPlain (char : Char) : Bool :=
  char == '\t' || (0x20 ≤ char.toNat && char.toNat ≠ 0x7f)

/-- A character that a basic string shows as it is. -/
def isBasic (char : Char) : Bool := isPlain char && char ≠ '"' && char ≠ '\\'

/-- A character that a literal string shows as it is. -/
def isLiteral (char : Char) : Bool := isPlain char && char ≠ '\''

/-- The text after blanks. -/
def skipBlanks (chars : List Char) : List Char := chars.dropWhile isBlank

/-- The text after a line end, if there is one. -/
def newline? : List Char → Option (List Char)
  | '\n' :: rest => some rest
  | '\r' :: '\n' :: rest => some rest
  | _ => none

/-- The text after a comment, if there is one, and blanks before it. -/
def skipComment (chars : List Char) : List Char :=
  match skipBlanks chars with
  | '#' :: rest => rest.dropWhile isPlain
  | rest => rest

/-- The text after blanks, a comment and the end of a line or the document. -/
def lineEnd? (chars : List Char) : Option (List Char) :=
  match skipComment chars with
  | [] => some []
  | rest => newline? rest

/-- The text after blanks, comments and line ends.  A comment goes on to the end
of its line. -/
def skipLines (inComment : Bool) : List Char → List Char
  | [] => []
  | '\n' :: rest => skipLines false rest
  | '\r' :: '\n' :: rest => skipLines false rest
  | char :: rest =>
      if inComment then
        if isPlain char then skipLines true rest else char :: rest
      else if char = '#' then skipLines true rest
      else if isBlank char then skipLines false rest
      else char :: rest

/-- The number of a hexadecimal digit. -/
def hexDigit? (char : Char) : Option Nat :=
  if '0' ≤ char ∧ char ≤ '9' then some (char.toNat - '0'.toNat)
  else if 'a' ≤ char ∧ char ≤ 'f' then some (char.toNat - 'a'.toNat + 10)
  else if 'A' ≤ char ∧ char ≤ 'F' then some (char.toNat - 'A'.toNat + 10)
  else none

/-- The character with a hexadecimal number, if there is one. -/
def numbered? (digits : List Char) : Option Char := do
  let numbers ← digits.mapM hexDigit?
  let number := numbers.foldl (fun number digit => 16 * number + digit) 0
  if number.isValidChar then some (Char.ofNat number) else none

/-- The character that a letter stands for after a backslash. -/
def escaped? : Char → Option Char
  | '"' => some '"'
  | '\\' => some '\\'
  | 'b' => some '\x08'
  | 'f' => some '\x0c'
  | 'n' => some '\n'
  | 'r' => some '\r'
  | 't' => some '\t'
  | _ => none

/-- Puts a character in front of what a reader read. -/
def before (char : Char) (read : Option (List Char × List Char)) :
    Option (List Char × List Char) :=
  read.map fun (chars, rest) => (char :: chars, rest)

/-- The rest of a basic string. -/
def basicRest : Reader (List Char)
  | [] => none
  | '"' :: rest => some ([], rest)
  | '\\' :: 'u' :: a :: b :: c :: d :: rest => do
      before (← numbered? [a, b, c, d]) (basicRest rest)
  | '\\' :: 'U' :: a :: b :: c :: d :: e :: f :: g :: h :: rest => do
      before (← numbered? [a, b, c, d, e, f, g, h]) (basicRest rest)
  | '\\' :: letter :: rest => do
      before (← escaped? letter) (basicRest rest)
  | char :: rest => if isBasic char then before char (basicRest rest) else none

/-- The rest of a literal string. -/
def literalRest : Reader (List Char)
  | [] => none
  | '\'' :: rest => some ([], rest)
  | char :: rest =>
      if isLiteral char then before char (literalRest rest) else none

/-- The rest of a basic string over several lines.  The string ends with three
quotes, and up to two more belong to it.  A backslash at the end of a line, and
then `skipping`, leaves out all space up to the next character. -/
def basicLinesRest (skipping : Bool) : Reader (List Char)
  | [] => none
  | '"' :: '"' :: '"' :: '"' :: '"' :: rest => some (['"', '"'], rest)
  | '"' :: '"' :: '"' :: '"' :: rest => some (['"'], rest)
  | '"' :: '"' :: '"' :: rest => some ([], rest)
  | '"' :: rest => before '"' (basicLinesRest false rest)
  | '\r' :: '\n' :: rest =>
      if skipping then basicLinesRest true rest
        else before '\n' (basicLinesRest false rest)
  | '\n' :: rest =>
      if skipping then basicLinesRest true rest
        else before '\n' (basicLinesRest false rest)
  | '\\' :: 'u' :: a :: b :: c :: d :: rest => do
      before (← numbered? [a, b, c, d]) (basicLinesRest false rest)
  | '\\' :: 'U' :: a :: b :: c :: d :: e :: f :: g :: h :: rest => do
      before (← numbered? [a, b, c, d, e, f, g, h]) (basicLinesRest false rest)
  | '\\' :: char :: rest =>
      if (newline? (skipBlanks (char :: rest))).isSome then
        basicLinesRest true (char :: rest)
      else do before (← escaped? char) (basicLinesRest false rest)
  | char :: rest =>
      if skipping && isBlank char then basicLinesRest true rest
      else if isBasic char then before char (basicLinesRest false rest)
      else none

/-- The rest of a literal string over several lines.  The string ends with three
quotes, and up to two more belong to it. -/
def literalLinesRest : Reader (List Char)
  | [] => none
  | '\'' :: '\'' :: '\'' :: '\'' :: '\'' :: rest => some (['\'', '\''], rest)
  | '\'' :: '\'' :: '\'' :: '\'' :: rest => some (['\''], rest)
  | '\'' :: '\'' :: '\'' :: rest => some ([], rest)
  | '\'' :: rest => before '\'' (literalLinesRest rest)
  | '\r' :: '\n' :: rest => before '\n' (literalLinesRest rest)
  | '\n' :: rest => before '\n' (literalLinesRest rest)
  | char :: rest =>
      if isLiteral char then before char (literalLinesRest rest) else none

/-- A line end right after the opening quotes does not belong to the string. -/
def skipFirstNewline (chars : List Char) : List Char :=
  (newline? chars).getD chars

/-- A string of one line. -/
def readLineString : Reader String
  | '"' :: rest =>
      (basicRest rest).map fun (chars, rest) => (String.ofList chars, rest)
  | '\'' :: rest =>
      (literalRest rest).map fun (chars, rest) => (String.ofList chars, rest)
  | _ => none

/-- A string of any kind. -/
def readString : Reader String
  | '"' :: '"' :: '"' :: rest =>
      (basicLinesRest false (skipFirstNewline rest)).map fun (chars, rest) =>
        (String.ofList chars, rest)
  | '\'' :: '\'' :: '\'' :: rest =>
      (literalLinesRest (skipFirstNewline rest)).map fun (chars, rest) =>
        (String.ofList chars, rest)
  | chars => readLineString chars

end Toml

end DeltaGraph
