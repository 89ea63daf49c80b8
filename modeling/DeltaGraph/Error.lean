import DeltaGraph.Graph.Version
import DeltaGraph.Id

/-!
# Errors

Every failure is a cause with what it is about.  The wording of each cause is
in one place.
-/

namespace DeltaGraph

/-- What can be wrong with a query that is to be planned. -/
inductive PlanFault
  /-- The pattern has no relation. -/
  | noRelations
  /-- A relation joins a variable to itself. -/
  | selfLoop (relation name : String)
  /-- A variable was declared with two types. -/
  | conflictingTypes (name first second : String)
  /-- Two relations have the same name. -/
  | duplicateRelation (name : String)
  /-- A relation has the name of a variable. -/
  | shadowedVariable (name : String)
  /-- No relation uses a declared variable. -/
  | isolatedVariable (name : String)
  /-- A relation or a predicate mentions a name that is not declared. -/
  | unknownVariable (name context : String)
  /-- The planner does not plan queries of this kind. -/
  | unexpectedOperation (planner found : String)
  deriving DecidableEq

namespace PlanFault

/-- A short name of the fault. -/
def code : PlanFault → String
  | noRelations => "NoRelations"
  | selfLoop .. => "SelfLoop"
  | conflictingTypes .. => "ConflictingVariableType"
  | duplicateRelation .. => "DuplicateRelationName"
  | shadowedVariable .. => "RelationShadowsVariable"
  | isolatedVariable .. => "IsolatedVariable"
  | unknownVariable .. => "UnknownVariable"
  | unexpectedOperation .. => "UnexpectedOperation"

/-- The wording of the fault. -/
def message : PlanFault → String
  | noRelations => "pattern must contain at least one relation"
  | selfLoop relation name =>
      "relation '" ++ relation ++ "' connects '" ++ name ++
        "' to itself; self loops are not plannable"
  | conflictingTypes name first second =>
      "variable '" ++ name ++ "' declared with conflicting types '" ++ first ++
        "' and '" ++ second ++ "'"
  | duplicateRelation name => "duplicate relation name '" ++ name ++ "'"
  | shadowedVariable name =>
      "relation name '" ++ name ++ "' is also used as a vertex variable"
  | isolatedVariable name =>
      "variable '" ++ name ++ "' is not used by any relation"
  | unknownVariable name context =>
      "unknown variable '" ++ name ++ "' referenced in " ++ context
  | unexpectedOperation planner found =>
      planner ++ " planner cannot plan a " ++ found ++ " query"

/-- The wording after the code in brackets. -/
def codedMessage (fault : PlanFault) : String :=
  "[" ++ fault.code ++ "] " ++ fault.message

end PlanFault

/-- Failures of files. -/
inductive FileFault
  | notFound
  | isDirectory
  /-- A write fails for a reason that the system words. -/
  | unwritten (reason : String)
  deriving DecidableEq

/-- The wording of a failure of a file. -/
def FileFault.message : FileFault → String
  | notFound => "No such file or directory (os error 2)"
  | isDirectory => "Is a directory (os error 21)"
  | unwritten reason => reason

/-- Arguments that an operation refuses. -/
inductive InvalidArgument
  /-- A committed vertex was given another type inside a batch. -/
  | retypedVertex (vertex : VertexId) (committed given : TypeId)
  /-- A committed vertex was given another property value inside a batch. -/
  | changedVertex (vertex : VertexId) (property : PropertyId)
  /-- A committed edge was given another property value inside a batch. -/
  | changedEdge (source target : VertexId) (property : PropertyId)
  /-- No callback has the name. -/
  | unknownCallback (name : String)
  /-- Queries of this operation are not planned. -/
  | unplannedOperation (operation : String)
  deriving DecidableEq

/-- The wording of a refused argument. -/
def InvalidArgument.message : InvalidArgument → String
  | retypedVertex vertex committed given =>
      "vertex " ++ vertex.text ++ " is committed with type " ++
        committed.text ++
        "; cannot retype it to " ++ given.text ++ " inside a batch"
  | changedVertex vertex property =>
      "vertex " ++ vertex.text ++ " is committed; cannot change property " ++
        property.text ++ " inside a batch"
  | changedEdge source target property =>
      "edge " ++ source.text ++ "->" ++ target.text ++
        " is committed; cannot change property " ++ property.text ++
        " inside a batch"
  | unknownCallback name => "no callback registered as '" ++ name ++ "'"
  | unplannedOperation operation =>
      operation ++ " queries have no plan to explain"

/-- The text of a type that may be left open. -/
def typeText : Option TypeId → String
  | some type => type.text
  | none => "any"

/-- Conditions that plans and graphs are expected to keep. -/
inductive Violation
  /-- A relation is read from no version. -/
  | unclassifiedRelation (relation : Nat)
  /-- A variable is not in the order of a plan. -/
  | unorderedVariable (name : String)
  /-- The parts of a plan do not fit together. -/
  | misshapenPlan (bound stages types : Nat)
  /-- There is nothing to scan. -/
  | emptyFirstStage
  /-- A column shows a variable that the plan does not bind. -/
  | columnOutOfRange
  /-- A rule starts at a variable that is not bound yet. -/
  | unboundRule (slot bound : Nat)
  /-- A relation ends at a variable that the plan does not bind. -/
  | unboundRelation (name : String) (slot : Nat)
  /-- A column shows a variable that a tuple does not bind. -/
  | unboundColumn (column : Nat)
  /-- No edge was found for a relation. -/
  | unresolvedRelation (name : String) (source target : VertexId)
      (version : Version)
  /-- No edge joins two vertices. -/
  | missingEdge (source target : VertexId) (type : Option TypeId)
      (version : Version)
  deriving DecidableEq

/-- The wording of a violated condition. -/
def Violation.message : Violation → String
  | unclassifiedRelation relation =>
      "relation " ++ toString relation ++ " is neither MERGED nor PERMANENT"
  | unorderedVariable name => "variable '" ++ name ++ "' missing from order"
  | misshapenPlan bound stages types =>
      "plan has " ++ toString bound ++ " variables, " ++ toString stages ++
        " stages and " ++ toString types ++ " variable types"
  | emptyFirstStage => "first stage must hold at least one rule"
  | columnOutOfRange => "output column outside the vertex prefix"
  | unboundRule slot bound =>
      "rule reads prefix slot " ++ toString slot ++ " of a " ++
        toString bound ++
        "-vertex tuple"
  | unboundRelation name slot =>
      "relation '" ++ name ++ "' reads unbound slot " ++ toString slot
  | unboundColumn column => "tuple has no vertex in slot " ++ toString column
  | unresolvedRelation name source target version =>
      "relation '" ++ name ++ "': no edge " ++ source.text ++ "->" ++
        target.text ++
        " in " ++ version.name
  | missingEdge source target type version =>
      "no edge " ++ source.text ++ "->" ++ target.text ++ " (type " ++
        typeText type ++
        ") in " ++ version.name

/-- Why an operation failed. -/
inductive Error
  | file (fault : FileFault)
  | invalid (argument : InvalidArgument)
  /-- A sink refused a row. -/
  | refusedRow
  /-- The destination of a sink is gone. -/
  | missingTarget
  | unknownType (name : String)
  | unknownProperty (key : String)
  | violated (condition : Violation)
  | plan (fault : PlanFault)
  /-- A configuration cannot be read or written. -/
  | malformedConfig
  deriving DecidableEq

/-- The wording of an error. -/
def Error.message : Error → String
  | file fault => "IO: " ++ fault.message
  | invalid argument => "invalid argument: " ++ argument.message
  | refusedRow => "invalid argument: sink rejected row"
  | missingTarget => "sink target not found"
  | unknownType name => "unknown type '" ++ name ++ "'"
  | unknownProperty key => "unknown property key '" ++ key ++ "'"
  | violated condition => "invariant violated: " ++ condition.message
  | plan fault => "planning failed: " ++ fault.message
  | malformedConfig => "malformed configuration"

end DeltaGraph
