import DeltaGraph.Toml.Text

/-!
# TOML dates and times

A moment is a date, a time of day, or a date and a time with or without an
offset.  A second may be a leap second.
-/

namespace DeltaGraph
namespace Toml

/-- The number of two digits. -/
def twoDigits? (tens units : Char) : Option Nat :=
  if tens.isDigit && units.isDigit then
    some (10 * (tens.toNat - '0'.toNat) + (units.toNat - '0'.toNat))
  else none

/-- Whether a year has a leap day. -/
def isLeapYear (year : Nat) : Bool :=
  year % 4 == 0 && (year % 100 != 0 || year % 400 == 0)

/-- The number of days of a month. -/
def daysOfMonth (year month : Nat) : Nat :=
  if month = 2 then (if isLeapYear year then 29 else 28)
  else if month = 4 ∨ month = 6 ∨ month = 9 ∨ month = 11 then 30
  else 31

/-- The text after a date, if it starts with one. -/
def afterDate? : List Char → Option (List Char)
  | a :: b :: c :: d :: '-' :: e :: f :: '-' :: g :: h :: rest => do
      let year := 100 * (← twoDigits? a b) + (← twoDigits? c d)
      let month ← twoDigits? e f
      let day ← twoDigits? g h
      if 1 ≤ month ∧ month ≤ 12 ∧ 1 ≤ day ∧ day ≤ daysOfMonth year month then
        some rest
      else none
  | _ => none

/-- The text after the fraction of a second, if there is one. -/
def afterFraction? : List Char → Option (List Char)
  | '.' :: digit :: rest =>
      if digit.isDigit then some (rest.dropWhile Char.isDigit) else none
  | '.' :: [] => none
  | chars => some chars

/-- The text after a time of day, if it starts with one. -/
def afterTime? : List Char → Option (List Char)
  | a :: b :: ':' :: c :: d :: ':' :: e :: f :: rest => do
      let hour ← twoDigits? a b
      let minute ← twoDigits? c d
      let second ← twoDigits? e f
      if hour ≤ 23 ∧ minute ≤ 59 ∧ second ≤ 60 then afterFraction? rest
        else none
  | _ => none

/-- Whether the text is an offset, or empty. -/
def isOffset : List Char → Bool
  | [] => true
  | ['Z'] => true
  | ['z'] => true
  | [sign, a, b, ':', c, d] =>
      (sign == '+' || sign == '-') && (twoDigits? a b).any (· ≤ 23) &&
        (twoDigits? c d).any (· ≤ 59)
  | _ => false

/-- Whether the text is a date. -/
def isDate (chars : List Char) : Bool := afterDate? chars == some []

/-- Whether the text is a moment. -/
def isMoment (chars : List Char) : Bool :=
  match afterDate? chars with
  | some [] => true
  | some (delimiter :: rest) =>
      (delimiter == 'T' || delimiter == 't' || delimiter == ' ') &&
        (afterTime? rest).any isOffset
  | none => afterTime? chars == some []

end Toml

end DeltaGraph
