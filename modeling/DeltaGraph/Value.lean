import DeltaGraph.Binary64.Layout
import DeltaGraph.Text.Quoted

/-!
# Property values

Values are compared for two purposes.  A stored value is *equal* to another
when both have the same kind and the same payload.  A predicate *compares*
values: integers and floating-point numbers compare with each other, the
integer being rounded to the nearest floating-point number, and values of kinds
that do not compare satisfy no predicate.
-/

namespace DeltaGraph

/-- A property value. -/
inductive Value
  | null
  | bool (value : Bool)
  | int (value : Int64)
  | float (value : Binary64)
  | string (value : String)
  deriving DecidableEq

namespace Value

/-- Equality of stored values: the same kind, and equal payloads. -/
def equals : Value → Value → Bool
  | null, null => true
  | bool left, bool right => left == right
  | int left, int right => left == right
  | float left, float right => left.equals right
  | string left, string right => left == right
  | _, _ => false

/-- The order in which a predicate compares two values, if it does. -/
def compare? : Value → Value → Option Ordering
  | bool left, bool right => some (compare left right)
  | int left, int right => some (compare left.toInt right.toInt)
  | int left, float right => (Binary64.ofInt left.toInt).compare? right
  | float left, int right => left.compare? (Binary64.ofInt right.toInt)
  | float left, float right => left.compare? right
  | string left, string right => some (compare left right)
  | _, _ => none

/-- The bare text of a value. -/
def text : Value → String
  | null => "null"
  | bool value => if value then "true" else "false"
  | int value => toString value.toInt
  | float value => FloatLayout.plain.text value
  | string value => value

/-- A value with its kind, as plan descriptions show it. -/
def tagged : Value → String
  | null => "Null"
  | bool value => if value then "Bool(true)" else "Bool(false)"
  | int value => "Int(" ++ toString value.toInt ++ ")"
  | float value => "Float(" ++ FloatLayout.literal.text value ++ ")"
  | string value => "Str(" ++ Text.quote value ++ ")"

end Value

/-- A comparison that a predicate asks for. -/
inductive Comparison
  | equal
  | unequal
  | less
  | lessOrEqual
  | greater
  | greaterOrEqual
  deriving DecidableEq

namespace Comparison

/-- The sign of a comparison. -/
def symbol : Comparison → String
  | equal => "="
  | unequal => "<>"
  | less => "<"
  | lessOrEqual => "<="
  | greater => ">"
  | greaterOrEqual => ">="

/-- All comparisons. -/
def all : List Comparison :=
  [equal, unequal, less, lessOrEqual, greater, greaterOrEqual]

/-- Whether two values in the given order pass the comparison. -/
def admits : Comparison → Ordering → Bool
  | equal, order => order == .eq
  | unequal, order => order != .eq
  | less, order => order == .lt
  | lessOrEqual, order => order != .gt
  | greater, order => order == .gt
  | greaterOrEqual, order => order != .lt

/-- Whether two values pass the comparison; values that do not compare never
do. -/
def holds (comparison : Comparison) (left right : Value) : Bool :=
  match left.compare? right with
  | some order => comparison.admits order
  | none => false

end Comparison

end DeltaGraph
