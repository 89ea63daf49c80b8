import DeltaGraph.Plan.Fingerprint

/-!
# Descriptions of plans

A plan is described as a tree of operators with the sink at the root and the
scan at the leaf.  A setting that shows literals is marked, so that a reader of
the tree can mask it.
-/

namespace DeltaGraph

/-- A setting of an operator. -/
structure Setting where
  key : String
  value : String
  /-- Whether the value shows literals. -/
  showsLiterals : Bool := false
  deriving DecidableEq

/-- An operator with its settings and its inputs. -/
inductive Operator
  | node (name : String) (settings : List Setting) (inputs : List Operator)

namespace Rule

/-- The text of a rule. -/
def text (rule : Rule) : String :=
  "(" ++ toString rule.slot ++ ", " ++ rule.direction.name ++ ", " ++
    rule.version.name ++
    ", type=" ++ typeText rule.type ++ ")"

end Rule

/-- The text of a stage. -/
def Stage.text (stage : Stage) : String :=
  if stage.isEmpty then "[all vertices]"
    else "[" ++ " ".intercalate (stage.map Rule.text) ++ "]"

/-- The text of a place. -/
def Place.text : Place → String
  | vertex index => "v" ++ toString index
  | edge index => "e" ++ toString index

/-- The text of the right-hand side of a condition. -/
def ConditionOperand.text : ConditionOperand → String
  | property place key => place.text ++ "." ++ key.text
  | literal value => value.tagged

/-- The text of a condition. -/
def Condition.text (condition : Condition) : String :=
  condition.place.text ++ "." ++ condition.property.text ++ " " ++
    condition.comparison.symbol ++ " " ++ condition.right.text

namespace Operator

mutual

/-- The lines of an operator and, indented, of its inputs. -/
def lines (indentation : Nat) : Operator → List String
  | node name settings inputs =>
      (String.ofList (List.replicate indentation ' ') ++ name ++
        String.join
          (settings.map fun setting =>
            " " ++ setting.key ++ "=" ++ setting.value)) ::
      linesOfAll (indentation + 2) inputs

/-- The lines of operators one after another. -/
def linesOfAll (indentation : Nat) : List Operator → List String
  | [] => []
  | first :: rest => lines indentation first ++ linesOfAll indentation rest

end

/-- The operator with one more setting in front. -/
def withSetting (setting : Setting) : Operator → Operator
  | node name settings inputs => node name (setting :: settings) inputs

end Operator

/-- A plan's tree of operators and its fingerprint. -/
structure Description where
  root : Operator
  fingerprint : UInt64

/-- The text of a description: the fingerprint, and one line per operator. -/
def Description.text (description : Description) : String :=
  String.join ((("plan_hash=" ++ fingerprintText description.fingerprint) ::
    description.root.lines 0).map (· ++ "\n"))

namespace Plan

/-- The scan of the first two variables. -/
def scanOperator (plan : Plan) : Operator :=
  match plan.stages with
  | [] => .node "Scan" [] []
  | first :: _ =>
      .node "Scan"
        [⟨"vars", ",".intercalate (plan.order.take 2), false⟩,
          ⟨"rules", first.text, false⟩] []

/-- The operators that bind the variables of further stages; `slot` is that of
the next variable. -/
def extendOperators
    (plan : Plan)
    (input : Operator)
    (slot : Nat) : List Stage → Operator
  | [] => input
  | stage :: rest =>
      let target :=
        (plan.order[slot]?).toList.map fun name => ⟨"to", name, false⟩
      plan.extendOperators
        (.node "Extend" (target ++ [⟨"rules", stage.text, false⟩]) [input])
        (slot + 1) rest

/-- The operator that resolves relations to edges. -/
def resolveOperator (plan : Plan) (input : Operator) : Operator :=
  let edges :=
    plan.lookups.map fun edge => edge.name ++ "@" ++ edge.version.name
  .node "EdgeIdResolver" [⟨"edges", ",".intercalate edges, false⟩] [input]

/-- The operator that tests conditions, if there are any. -/
def filterOperator (plan : Plan) (input : Operator) : Operator :=
  if plan.conditions.isEmpty then input
  else .node "Filter" (plan.conditions.map fun condition =>
    ⟨"predicate", condition.text, true⟩) [input]

/-- All operators of a plan. -/
def operators (plan : Plan) : Operator :=
  let bound := plan.extendOperators plan.scanOperator 2 (plan.stages.drop 1)
  .node "Sink" [⟨"kind", plan.rowKind.label, false⟩]
    [plan.filterOperator (plan.resolveOperator bound)]

/-- The description of a plan. -/
def describe (plan : Plan) : Description :=
  ⟨plan.operators, plan.fingerprint⟩

end Plan

namespace DeltaPlan

/-- The operators of a delta plan, marked with what it starts from. -/
def operators (delta : DeltaPlan) : Operator :=
  delta.plan.operators.withSetting
    ⟨"diff", toString delta.relation ++ ":" ++ delta.version.name, false⟩

end DeltaPlan

namespace StandingPlan

/-- The description of the plans of a standing pattern. -/
def describe (plan : StandingPlan) : Description where
  root := .node "ContinuousMatch"
    [⟨"relations", ",".intercalate plan.relationNames, false⟩]
    (plan.deltas.map DeltaPlan.operators)
  fingerprint := plan.fingerprint

end StandingPlan

end DeltaGraph
