import DeltaGraph.Plan.Fingerprint
import Mathlib.Data.String.Basic
import Mathlib.Tactic.Common

/-!
# The order of texts is that of their bytes

Texts are compared character by character.  Since UTF-8 writes a character with
a larger code as bytes that come later, comparing the bytes of two texts gives
the same order.
-/

namespace DeltaGraph

theorem toList_loop (bytes : ByteArray) (index : Nat) (read : List UInt8) :
    ByteArray.toList.loop bytes index read =
      read.reverse ++ bytes.data.toList.drop index := by
  fun_induction ByteArray.toList.loop bytes index read with
  | case1 index read more inductionHypothesis =>
      have inside : index < bytes.data.toList.length := more
      have next : bytes.get! index = bytes.data[index] :=
        getElem!_pos bytes.data index inside
      rw [inductionHypothesis, List.drop_eq_getElem_cons inside,
        List.reverse_cons, List.append_assoc, next]
      rfl
  | case2 index read done =>
      rw [List.drop_eq_nil_of_le (Nat.le_of_not_lt done), List.append_nil]

/-- The bytes of a text are those of its characters, one after the other. -/
theorem textBytes_eq (text : String) :
    textBytes text = text.toList.flatMap String.utf8EncodeChar := by
  have written : text.toUTF8 = (String.ofList text.toList).toByteArray := by
    simp
  rw [textBytes, ByteArray.toList, toList_loop, written,
    String.toByteArray_ofList, List.utf8Encode, List.toList_data_toByteArray]
  rfl

theorem toNat_byte
    {number : Nat}
    (small : number < 256) :
    (UInt8.ofNat number).toNat = number :=
  UInt8.toNat_ofNat_of_lt' small

/-- The bytes of a character come before those of a later one, whatever
follows. -/
theorem encoded_lt
    {left right : Char}
    (less : left < right)
    (lefts rights : List UInt8) :
    String.utf8EncodeChar left ++ lefts <
      String.utf8EncodeChar right ++ rights := by
  have codes : left.val.toNat < right.val.toNat := less
  have bound : right.val.toNat < 0x110000 := by
    rcases right.valid with low | high <;> omega
  unfold String.utf8EncodeChar
  generalize left.val.toNat = leftCode at *
  generalize right.val.toNat = rightCode at *
  -- A code with more bytes has a larger first byte; with equally many bytes the
  -- first digit in which the codes differ decides.
  simp only
  have last : leftCode / 64 < rightCode / 64 ∨
      leftCode / 64 = rightCode / 64 ∧ leftCode % 64 < rightCode % 64 := by
        omega
  have third (less : leftCode / 64 < rightCode / 64) :
      leftCode / 4096 < rightCode / 4096 ∨
        leftCode / 4096 = rightCode / 4096 ∧
          leftCode / 64 % 64 < rightCode / 64 % 64 := by omega
  have second (less : leftCode / 4096 < rightCode / 4096) :
      leftCode / 262144 < rightCode / 262144 ∨
        leftCode / 262144 = rightCode / 262144 ∧
        leftCode / 4096 % 64 < rightCode / 4096 % 64 := by omega
  have first (code : Nat) (bound : code < 0x110000) :
      code / 262144 % 8 = code / 262144 := by omega
  have leftFirst := first leftCode (by omega)
  have rightFirst := first rightCode bound
  split_ifs
  all_goals
    simp (disch := omega)
      only [List.cons_append, List.nil_append, List.cons_lt_cons_iff,
        UInt8.lt_iff_toNat_lt, ← UInt8.toNat_inj, toNat_byte]
    omega

/-- Encoding keeps the order of lists of characters. -/
theorem flatMap_encoded_lt {lefts rights : List Char} (less : lefts < rights) :
    lefts.flatMap String.utf8EncodeChar <
      rights.flatMap String.utf8EncodeChar := by
  induction lefts generalizing rights with
  | nil =>
      cases rights with
      | nil => exact absurd less (List.lt_irrefl [])
      | cons right rights =>
          rw [List.flatMap_cons, List.flatMap_nil]
          cases written : String.utf8EncodeChar right with
          | nil => exact absurd written String.utf8EncodeChar_ne_nil
          | cons byte bytes => exact List.nil_lt_cons byte _
  | cons left lefts inductionHypothesis =>
      cases rights with
      | nil => exact absurd less (List.not_lt_nil _)
      | cons right rights =>
          rw [List.flatMap_cons, List.flatMap_cons]
          rcases List.cons_lt_cons_iff.mp less with first | ⟨rfl, later⟩
          · exact encoded_lt first _ _
          · exact List.append_left_lt (inductionHypothesis later)

theorem textBytes_lt {left right : String} (less : left < right) :
    textBytes left < textBytes right := by
  rw [textBytes_eq, textBytes_eq]
  exact flatMap_encoded_lt (String.lt_iff_toList_lt.mp less)

/-- Texts are ordered as their bytes are. -/
theorem textBytes_lt_iff {left right : String} :
    textBytes left < textBytes right ↔ left < right := by
  refine ⟨fun bytes => ?_, textBytes_lt⟩
  rcases lt_trichotomy left right with less | rfl | greater
  · exact less
  · exact absurd bytes (List.lt_irrefl _)
  · exact absurd bytes (List.lt_asymm (textBytes_lt greater))

end DeltaGraph
