import DeltaGraph.Hash.Xxh64
import DeltaGraph.Plan

/-!
# Fingerprints of plans

The shape of a plan is written as bytes, and its fingerprint is the hash of
these bytes.  Numbers have a fixed width, the least significant byte first;
names of variables end with a zero byte.  The literals of conditions are not
part of the shape.
-/

namespace DeltaGraph

/-- A number in a fixed number of bytes, the least significant first. -/
def littleEndian : (width : Nat) → Nat → List UInt8
  | 0, _ => []
  | width + 1, number => UInt8.ofNat number :: littleEndian width (number / 256)

/-- A number in eight bytes. -/
def wordBytes (number : Nat) : List UInt8 := littleEndian 8 number

/-- The UTF-8 form of a text. -/
def textBytes (text : String) : List UInt8 := text.toUTF8.toList

/-- A type that may be left open: a marker, and the number of the type. -/
def typeBytes : Option TypeId → List UInt8
  | some type => 1 :: littleEndian 4 type.number
  | none => [0]

/-- The byte of a direction. -/
def Direction.byte : Direction → UInt8
  | forward => 0
  | backward => 1

/-- The byte of a version. -/
def Version.byte : Version → UInt8
  | permanent => 0
  | additions => 1
  | removals => 2
  | merged => 3

/-- The bytes of a rule. -/
def Rule.bytes (rule : Rule) : List UInt8 :=
  wordBytes rule.slot ++ [rule.direction.byte, rule.version.byte] ++
    typeBytes rule.type

/-- The number of rules of a stage and their bytes. -/
def Stage.bytes (stage : Stage) : List UInt8 :=
  wordBytes stage.length ++ stage.flatMap Rule.bytes

/-- The bytes of a relation. -/
def EdgeLookup.bytes (lookup : EdgeLookup) : List UInt8 :=
  textBytes lookup.name ++ wordBytes lookup.source ++ wordBytes lookup.target ++
    [lookup.version.byte]

namespace Plan

/-- The bytes of the shape of a plan. -/
def bytes (plan : Plan) : List UInt8 :=
  plan.order.flatMap (fun name => textBytes name ++ [0]) ++
    plan.types.flatMap typeBytes ++
    plan.stages.flatMap Stage.bytes ++
    plan.lookups.flatMap EdgeLookup.bytes ++
    wordBytes plan.conditions.length ++
    plan.columns.flatMap wordBytes

/-- The fingerprint of a plan. -/
def fingerprint (plan : Plan) : UInt64 :=
  Xxh64.hash 0 plan.bytes

end Plan

/-- The fingerprint of the fingerprints of the delta plans. -/
def StandingPlan.fingerprint (plan : StandingPlan) : UInt64 :=
  Xxh64.hash 0
    (plan.deltas.flatMap fun delta => wordBytes delta.plan.fingerprint.toNat)

/-- A fingerprint in sixteen hexadecimal digits. -/
def fingerprintText (fingerprint : UInt64) : String :=
  let digits := Nat.toDigits 16 fingerprint.toNat
  String.ofList (List.replicate (16 - digits.length) '0' ++ digits)

end DeltaGraph
