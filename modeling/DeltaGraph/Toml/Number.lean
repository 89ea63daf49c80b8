import DeltaGraph.Binary64.Shortest
import DeltaGraph.Toml.Text

/-!
# TOML numbers

Integers are decimal, or hexadecimal, octal or binary after a marker, and have
64 bits.  Floating-point numbers have a fraction, an exponent or both.  Single
underscores may stand between digits, and a decimal integer does not start with
a superfluous zero.
-/

namespace DeltaGraph

/-- The number nearest to a decimal. -/
def Binary64.ofDecimal (decimal : Decimal) : Binary64 :=
  let order := digitCount decimal.digits + decimal.exponent
  if decimal.digits = 0 ∨ order < -330 then .zero
  else if 310 < order then ⟨UInt64.ofNat infinityBits⟩
  else
    .ofRatio (decimal.digits * Nat.pow 10 decimal.exponent.toNat)
      (Nat.pow 10 (-decimal.exponent).toNat)

/-- The number with the other sign. -/
def Binary64.negate (number : Binary64) : Binary64 :=
  ⟨number.bits ^^^ 0x8000000000000000⟩

namespace Toml

/-- The digits without the underscores between them. -/
def ungroup? (isDigit : Char → Bool) : List Char → Option (List Char)
  | [] => none
  | [char] => if isDigit char then some [char] else none
  | char :: '_' :: rest =>
      if isDigit char then (ungroup? isDigit rest).map (char :: ·) else none
  | char :: next :: rest =>
      if isDigit char then (ungroup? isDigit (next :: rest)).map (char :: ·)
        else none

/-- The number with the given digits. -/
def numberOf (base : Nat) (digits : List Char) : Nat :=
  digits.foldl (fun number digit => base * number + (hexDigit? digit).getD 0) 0

/-- The digits of a decimal number without superfluous zeros. -/
def decimalDigits? (chars : List Char) : Option (List Char) := do
  match ← ungroup? Char.isDigit chars with
  | '0' :: _ :: _ => none
  | digits => some digits

/-- The sign of a number, and what follows it. -/
def signed : List Char → Bool × List Char
  | '-' :: rest => (true, rest)
  | '+' :: rest => (false, rest)
  | chars => (false, chars)

/-- The integer, if 64 bits hold it. -/
def inRange? (value : Int) : Option Int :=
  if Int64.minValue.toInt ≤ value ∧ value ≤ Int64.maxValue.toInt then some value
    else none

/-- The integer of a token. -/
def integer? : List Char → Option Int
  | '0' :: 'x' :: digits => do
      inRange?
        (numberOf 16 (← ungroup? (fun char => (hexDigit? char).isSome) digits))
  | '0' :: 'o' :: digits => do
      inRange?
        (numberOf 8 (← ungroup? (fun char => '0' ≤ char && char ≤ '7') digits))
  | '0' :: 'b' :: digits => do
      inRange?
        (numberOf 2
          (← ungroup? (fun char => char == '0' || char == '1') digits))
  | token => do
      let (negative, chars) := signed token
      let number := numberOf 10 (← decimalDigits? chars)
      inRange? (if negative then -(number : Int) else number)

/-- The digits after the point of a number, and what follows them. -/
def fraction? : List Char → Option (List Char × List Char)
  | '.' :: rest => do
      let isExponent char := char == 'e' || char == 'E'
      let digits ← ungroup? Char.isDigit (rest.takeWhile (!isExponent ·))
      return (digits, rest.dropWhile (!isExponent ·))
  | chars => some ([], chars)

/-- The exponent of a number. -/
def exponent? : List Char → Option Int
  | [] => some 0
  | _ :: rest => do
      let (negative, chars) := signed rest
      let number := numberOf 10 (← ungroup? Char.isDigit chars)
      return if negative then -(number : Int) else number

/-- The finite floating-point number of a token without sign. -/
def decimal? (chars : List Char) : Option Binary64 := do
  let isMark char := char == '.' || char == 'e' || char == 'E'
  let whole ← decimalDigits? (chars.takeWhile (!isMark ·))
  let rest := chars.dropWhile (!isMark ·)
  if rest.isEmpty then none
  let (fraction, exponentPart) ← fraction? rest
  let exponent ← exponent? exponentPart
  return .ofDecimal
    ⟨numberOf 10 (whole ++ fraction), exponent - fraction.length⟩

/-- The floating-point number of a token.  A number too large for one is
refused, a number too small becomes the negative infinity. -/
def float? (token : List Char) : Option Binary64 := do
  let (negative, chars) := signed token
  let signOf (number : Binary64) := if negative then number.negate else number
  if chars = ['i', 'n', 'f'] then
    return signOf ⟨UInt64.ofNat Binary64.infinityBits⟩
  if chars = ['n', 'a', 'n'] then return signOf ⟨0x7ff8000000000000⟩
  let number ← decimal? chars
  if number.isInfinite && !negative then none else return signOf number

end Toml

end DeltaGraph
