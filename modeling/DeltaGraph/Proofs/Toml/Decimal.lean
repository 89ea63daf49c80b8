import DeltaGraph.Toml.Statement
import Mathlib.Algebra.Group.Nat.Defs

/-!
# Decimal integers

The decimal digits of a number are a token that is read as this number, as long
as 64 bits hold it.
-/

namespace DeltaGraph
namespace Toml

/-! ## Digits -/

/-- The digits are the characters from zero to nine. -/
theorem isDigit_iff {char : Char} :
    char.isDigit = true ↔ '0' ≤ char ∧ char ≤ '9' := by
  simp [Char.isDigit, Char.le_def]

theorem hexDigit?_of_isDigit {char : Char} (digit : char.isDigit = true) :
    hexDigit? char = some (char.toNat - '0'.toNat) :=
  if_pos (isDigit_iff.mp digit)

/-- A digit may stand in an unquoted value. -/
theorem isTokenChar_of_isDigit {char : Char} (digit : char.isDigit = true) :
    isTokenChar char = true := by
  simp [isTokenChar, isBare, Char.isAlphanum, digit]

/-- Only a zero has a leading zero. -/
theorem head?_toDigits
    (number : Nat)
    (leading : (Nat.toDigits 10 number).head? = some '0') :
    number = 0 := by
  induction number using Nat.strongRecOn with
  | ind number inductionHypothesis =>
      rcases Nat.lt_or_ge number 10 with small | large
      · rw [Nat.toDigits_of_lt_base small] at leading
        have zero : ∀ digit < 10, [digit.digitChar].head? = some '0' →
            digit = 0 := by decide
        exact zero number small leading
      · obtain ⟨first, rest, digits⟩ := List.exists_cons_of_ne_nil
          (Nat.toDigits_ne_nil (n := number / 10) (b := 10))
        have prior := inductionHypothesis (number / 10) (by omega)
        rw [Nat.toDigits_of_base_le (by decide) large, digits] at leading
        rw [digits] at prior
        have := prior leading
        omega

variable {digits : List Char} (digital : ∀ char ∈ digits, char.isDigit = true)

include digital

/-- Digits without underscores are ungrouped as they are. -/
theorem ungroup?_of_digits (filled : digits ≠ []) :
    ungroup? Char.isDigit digits = some digits := by
  induction digits with
  | nil => exact absurd rfl filled
  | cons first rest inductionHypothesis =>
      have digit := digital first (.head _)
      cases rest with
      | nil => simp [ungroup?, digit]
      | cons second rest =>
          have more :=
            inductionHypothesis
              (fun char member => digital char (.tail _ member))
            (List.cons_ne_nil _ _)
          have plain : second ≠ '_' := by
            rintro rfl
            cases digital '_' (by simp)
          rw [ungroup?]
          · simp [digit, more]
          · exact plain

/-- The value of digits. -/
theorem numberOf_digits :
    numberOf 10 digits = Nat.ofDigitChars 10 digits 0 := by
  rw [numberOf, Nat.ofDigitChars_eq_foldl]
  suffices same : ∀ start,
      digits.foldl
          (fun number digit => 10 * number + (hexDigit? digit).getD 0) start =
        digits.foldl
          (fun number digit => 10 * number + (digit.toNat - '0'.toNat)) start
    from same 0
  intro start
  induction digits generalizing start with
  | nil => rfl
  | cons first rest inductionHypothesis =>
      rw [List.foldl_cons, List.foldl_cons,
        hexDigit?_of_isDigit (digital first (.head _)), Option.getD_some]
      exact inductionHypothesis
        (fun char member => digital char (.tail _ member)) _

theorem not_mem_of_digits
    (char : Char)
    (mark : char.isDigit = false) : char ∉ digits := by
  intro member
  rw [digital char member] at mark
  cases mark

theorem afterDate?_of_digits : afterDate? digits = none := by
  unfold afterDate?
  split
  · exact absurd (by simp) (not_mem_of_digits digital '-' rfl)
  · rfl

theorem afterTime?_of_digits : afterTime? digits = none := by
  unfold afterTime?
  split
  · exact absurd (by simp) (not_mem_of_digits digital ':' rfl)
  · rfl

/-- Digits alone are no time of day. -/
theorem isMoment_of_digits : isMoment digits = false := by
  rw [isMoment, afterDate?_of_digits digital]
  simp [afterTime?_of_digits digital]

/-- Digits alone are no date. -/
theorem isDate_of_digits : isDate digits = false := by
  rw [isDate, afterDate?_of_digits digital]
  rfl

/-- Digits alone carry no sign. -/
theorem signed_of_digits : signed digits = (false, digits) := by
  unfold signed
  split
  · exact absurd (.head _) (not_mem_of_digits digital '-' rfl)
  · exact absurd (.head _) (not_mem_of_digits digital '+' rfl)
  · rfl

/-- Digits are no number in another base, and no word. -/
theorem ne_of_digits
    (char : Char)
    (mark : char.isDigit = false)
    (first rest : List Char) :
    digits ≠ first ++ char :: rest := by
  rintro rfl
  exact not_mem_of_digits digital char mark (by simp)

omit digital

/-! ## Digits of a number -/

section

variable (number : Nat)

theorem digital_toDigits :
    ∀ char ∈ Nat.toDigits 10 number, char.isDigit = true :=
  fun _ member => Nat.isDigit_of_mem_toDigits (by decide) (by decide) member

/-- There is no superfluous zero. -/
theorem decimalDigits?_toDigits :
    decimalDigits? (Nat.toDigits 10 number) =
      some (Nat.toDigits 10 number) := by
  rw [decimalDigits?,
    ungroup?_of_digits (digital_toDigits number) Nat.toDigits_ne_nil]
  simp only [Option.bind_eq_bind, Option.bind_some]
  split
  · rename_i second rest written
    have zero := head?_toDigits number (by rw [written]; rfl)
    rw [zero] at written
    cases written
  · rfl

/-- A number written in decimal is read as itself when it is in range. -/
theorem integer?_toDigits :
    integer? (Nat.toDigits 10 number) = inRange? number := by
  have digital := digital_toDigits number
  have value : Nat.ofDigitChars 10 (Nat.toDigits 10 number) 0 = number :=
    Nat.ofDigitChars_toDigits (by decide) (by decide)
  unfold integer?
  split
  · rename_i written
    exact absurd written (ne_of_digits digital 'x' rfl ['0'] _)
  · rename_i written
    exact absurd written (ne_of_digits digital 'o' rfl ['0'] _)
  · rename_i written
    exact absurd written (ne_of_digits digital 'b' rfl ['0'] _)
  · rw [signed_of_digits digital]
    simp [decimalDigits?_toDigits, numberOf_digits digital, value]

/-- The decimal digits of a number are a token for it. -/
theorem tokenValue?_toDigits (small : number < 2 ^ 63) :
    tokenValue? (Nat.toDigits 10 number) = some (.integer number) := by
  have digital := digital_toDigits number
  have inside : inRange? number = some (number : Int) := by
    refine if_pos ?_
    have least : Int64.minValue.toInt = -2 ^ 63 := by decide
    have greatest : Int64.maxValue.toInt = 2 ^ 63 - 1 := by decide
    omega
  have untrue : Nat.toDigits 10 number ≠ ['t', 'r', 'u', 'e'] :=
    ne_of_digits digital 't' rfl [] _
  have unfalse : Nat.toDigits 10 number ≠ ['f', 'a', 'l', 's', 'e'] :=
    ne_of_digits digital 'f' rfl [] _
  rw [tokenValue?, if_neg untrue, if_neg unfalse, isMoment_of_digits digital,
    integer?_toDigits, inside]
  rfl

end

end Toml
end DeltaGraph
