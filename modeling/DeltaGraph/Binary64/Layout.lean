import DeltaGraph.Binary64.Shortest

/-!
# Written forms of floating-point numbers

A layout decides how the shortest digits of a number are set: between which
exponents they are written positionally, and whether a fraction is always
shown.  Outside the positional range the first digit stands before the point
and the exponent follows an `e`.
-/

namespace DeltaGraph

/-- Conventions for writing a floating-point number. -/
structure FloatLayout where
  /-- Whether a number whose first digit has this exponent is positional. -/
  positional : Int → Bool
  /-- Written after an integral positional number. -/
  integralEnding : String

namespace FloatLayout

/-- Always positional, and no fraction where none is needed. -/
def plain : FloatLayout := ⟨fun _ => true, ""⟩

/-- Positional from `1e-4` up to but not including `1e16`, always with a
fraction. -/
def literal : FloatLayout :=
  ⟨fun exponent => -4 ≤ exponent && exponent ≤ 15, ".0"⟩

/-- Digits set with a decimal point: `exponent` is that of the first digit. -/
def positionalText
    (layout : FloatLayout)
    (digits : List Char)
    (exponent : Int) : String :=
  if exponent < 0 then
    String.ofList
      ('0' :: '.' :: (List.replicate (-exponent - 1).toNat '0' ++ digits))
  else
    let whole := digits.take (exponent.toNat + 1)
    let fraction := digits.drop (exponent.toNat + 1)
    let padding := List.replicate (exponent.toNat + 1 - digits.length) '0'
    String.ofList (whole ++ padding) ++
      (if fraction.isEmpty then layout.integralEnding
        else String.ofList ('.' :: fraction))

/-- Digits set with one digit before the point and an exponent. -/
def scientificText (digits : List Char) (exponent : Int) : String :=
  let fraction := digits.drop 1
  String.ofList (digits.take 1) ++
    (if fraction.isEmpty then "" else String.ofList ('.' :: fraction)) ++
    "e" ++ toString exponent

/-- The text of a positive finite number. -/
def positiveText (layout : FloatLayout) (number : Binary64) : String :=
  let decimal := number.shortest
  let allDigits := Nat.toDigits 10 decimal.digits
  let exponent : Int := decimal.exponent + allDigits.length - 1
  let digits := (allDigits.reverse.dropWhile (· == '0')).reverse
  if layout.positional exponent then layout.positionalText digits exponent
  else scientificText digits exponent

/-- The text of a number. -/
def text (layout : FloatLayout) (number : Binary64) : String :=
  if number.isNaN then "NaN"
  else
    (if number.isNegative then "-" else "") ++
      (if number.isInfinite then "inf"
      else if number.magnitude = 0 then "0" ++ layout.integralEnding
      else layout.positiveText number)

end FloatLayout

end DeltaGraph
