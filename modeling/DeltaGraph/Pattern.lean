import DeltaGraph.Error
import DeltaGraph.Value

/-!
# Patterns

A pattern has vertex variables, directed relations between them, and predicates
over the properties of the vertices and edges that they bind.  The rules that
planning relies on are checked in a fixed order, and the first broken rule is
the fault of the pattern.
-/

namespace DeltaGraph

/-- A vertex variable; without a type it stands for vertices of any type. -/
structure PatternVariable where
  name : String
  type : Option String
  deriving DecidableEq

/-- A directed relation between two variables; without a type it stands for
edges of any type. -/
structure Relation where
  source : String
  target : String
  type : Option String
  name : Option String
  deriving DecidableEq

/-- A property of the vertex or edge that a variable or relation binds. -/
structure PropertyReference where
  element : String
  key : String
  deriving DecidableEq

/-- The right-hand side of a predicate. -/
inductive Operand
  | property (reference : PropertyReference)
  | literal (value : Value)
  deriving DecidableEq

/-- A comparison of a property with a literal or another property. -/
structure Predicate where
  left : PropertyReference
  comparison : Comparison
  right : Operand
  deriving DecidableEq

/-- The properties that a predicate mentions, the left one first. -/
def Predicate.references (predicate : Predicate) : List PropertyReference :=
  match predicate.right with
  | .property reference => [predicate.left, reference]
  | .literal _ => [predicate.left]

/-- Variables in order of first appearance, and relations and predicates in
order of declaration. -/
structure Pattern where
  declared : List PatternVariable := []
  relations : List Relation := []
  predicates : List Predicate := []
  deriving DecidableEq

namespace Relation

/-- Whether the relation joins two variables, in either direction. -/
def joins (relation : Relation) (left right : String) : Bool :=
  (relation.source == left && relation.target == right) ||
    (relation.source == right && relation.target == left)

/-- Whether the relation starts or ends at a variable. -/
def touches (relation : Relation) (name : String) : Bool :=
  relation.source == name || relation.target == name

/-- The name of the relation with a given number among those without one. -/
def generatedName (ordinal : Nat) : String :=
  toString ordinal ++ "_anon_rel"

/-- The names of relations; those without one are numbered from `ordinal`. -/
def names (ordinal : Nat) : List Relation → List String
  | [] => []
  | relation :: rest =>
      match relation.name with
      | some name => name :: names ordinal rest
      | none => generatedName ordinal :: names (ordinal + 1) rest

/-- What is wrong with the relation at an index, given the variables and the
names of the earlier relations. -/
def fault?
    (relation : Relation)
    (declared earlier : List String)
    (index : Nat) :
    Option PlanFault :=
  [relation.source, relation.target].findSome? (fun endpoint =>
    if declared.contains endpoint then none
    else some (.unknownVariable endpoint "relation")) <|>
  (if relation.source = relation.target then
    some (.selfLoop (relation.name.getD ("#" ++ toString index))
      relation.source)
  else none) <|>
  relation.name.bind fun name =>
    if declared.contains name then some (.shadowedVariable name)
    else if earlier.contains name then some (.duplicateRelation name)
    else none

/-- The first fault of relations from an index on. -/
def firstFault? (declared earlier : List String) (index : Nat) :
    List Relation → Option PlanFault
  | [] => none
  | relation :: rest =>
      relation.fault? declared earlier index <|>
        firstFault? declared (earlier ++ relation.name.toList) (index + 1) rest

end Relation

namespace Pattern

/-- The first variable with a name. -/
def find? (pattern : Pattern) (name : String) : Option PatternVariable :=
  pattern.declared.find? (·.name == name)

/-- The declared type of a variable. -/
def typeOf? (pattern : Pattern) (name : String) : Option String :=
  (pattern.find? name).bind PatternVariable.type

/-- The names of the variables, which are the columns of every row. -/
def variableNames (pattern : Pattern) : List String :=
  pattern.declared.map PatternVariable.name

/-- The names of the relations, given or generated. -/
def relationNames (pattern : Pattern) : List String :=
  Relation.names 0 pattern.relations

/-- The names that were given to relations. -/
def givenNames (pattern : Pattern) : List String :=
  pattern.relations.filterMap Relation.name

/-- A generated name that was also given to a relation. -/
def clashingName? (pattern : Pattern) : Option String :=
  (pattern.relations.zip pattern.relationNames).findSome?
    fun (relation, name) =>
      if relation.name.isNone && pattern.givenNames.contains name then some name
        else none

/-- The first variable that no relation touches. -/
def isolatedVariable? (pattern : Pattern) : Option PatternVariable :=
  pattern.declared.find? fun declared =>
    !pattern.relations.any (·.touches declared.name)

/-- The first element mentioned by a predicate that is neither a variable nor
a relation. -/
def unknownElement? (pattern : Pattern) : Option String :=
  let known := pattern.variableNames ++ pattern.relationNames
  (pattern.predicates.flatMap Predicate.references).findSome? fun reference =>
    if known.contains reference.element then none else some reference.element

/-- The first rule that the pattern breaks. -/
def fault? (pattern : Pattern) : Option PlanFault :=
  (if pattern.relations.isEmpty then some .noRelations else none) <|>
  Relation.firstFault? pattern.variableNames [] 0 pattern.relations <|>
  pattern.clashingName?.map .duplicateRelation <|>
  pattern.isolatedVariable?.map
    (fun isolated => .isolatedVariable isolated.name) <|>
  pattern.unknownElement?.map
    (fun element => .unknownVariable element "predicate")

/-- Succeeds if the pattern breaks no rule, and fails with the first broken one
otherwise. -/
def validate (pattern : Pattern) : Except PlanFault Unit :=
  match pattern.fault? with
  | none => .ok ()
  | some fault => .error fault

end Pattern

end DeltaGraph
