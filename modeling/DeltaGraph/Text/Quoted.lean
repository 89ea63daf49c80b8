import DeltaGraph.Text.Shapeless

/-!
# Quoted text

Text is quoted between double quotes.  The quote and the backslash are escaped
by a backslash, four controls have a letter, and a character without a shape of
its own is written by its number in hexadecimal digits.
-/

namespace DeltaGraph
namespace Text

/-- A character by its number: `\u`, then lower-case hexadecimal digits in
braces. -/
def numbered (char : Char) : List Char :=
  '\\' :: 'u' :: '\x7b' :: (Nat.toDigits 16 char.toNat ++ ['\x7d'])

/-- One character of quoted text. -/
def escape (char : Char) : List Char :=
  match char with
  | '\x00' => ['\\', '0']
  | '\t' => ['\\', 't']
  | '\r' => ['\\', 'r']
  | '\n' => ['\\', 'n']
  | '"' => ['\\', '"']
  | '\\' => ['\\', '\\']
  | other => if isShapeless other then numbered other else [other]

/-- Text between quotes, with what has to be escaped escaped. -/
def quote (text : String) : String :=
  String.ofList ('"' :: (text.toList.flatMap escape ++ ['"']))

end Text

end DeltaGraph
