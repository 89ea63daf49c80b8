import DeltaGraph.Pattern

/-!
# Patterns from declarations

A pattern is declared relation by relation and predicate by predicate.  The
endpoints of a relation declare variables, which appear in the pattern in order
of first appearance; a type may be given at any appearance, and two appearances
must not give different types.
-/

namespace DeltaGraph

/-- An end of a declared relation: a variable with the type given there. -/
structure Endpoint where
  name : String
  type : Option String
  deriving DecidableEq

namespace Endpoint

/-- An endpoint written as a name, or as a name and a type around the first
colon. -/
def ofText (text : String) : Endpoint :=
  let name := text.toList.takeWhile (· != ':')
  match text.toList.dropWhile (· != ':') with
  | [] => ⟨String.ofList name, none⟩
  | _ :: type => ⟨String.ofList name, some (String.ofList type)⟩

end Endpoint

/-- One step of declaring a pattern. -/
inductive Declaration
  | relation (source target : Endpoint) (type name : Option String)
  | predicate (predicate : Predicate)

namespace Pattern

/-- The variables after one more appearance of a variable. -/
def declareVariable (endpoint : Endpoint) :
    List PatternVariable → Except PlanFault (List PatternVariable)
  | [] => .ok [⟨endpoint.name, endpoint.type⟩]
  | first :: rest =>
      if first.name = endpoint.name then
        match first.type, endpoint.type with
        | some earlier, some later =>
            if earlier = later then .ok (first :: rest)
            else .error (.conflictingTypes endpoint.name earlier later)
        | none, some later => .ok (⟨first.name, some later⟩ :: rest)
        | _, none => .ok (first :: rest)
      else (declareVariable endpoint rest).map (first :: ·)

/-- The pattern after one more declaration. -/
def declare (pattern : Pattern) : Declaration → Except PlanFault Pattern
  | .relation source target type name => do
      let declared ← declareVariable source pattern.declared
      let declared ← declareVariable target declared
      return { pattern with
        declared
        relations :=
          pattern.relations ++ [⟨source.name, target.name, type, name⟩] }
  | .predicate predicate =>
      .ok { pattern with predicates := pattern.predicates ++ [predicate] }

/-- The pattern of a list of declarations, if they agree with each other and
the pattern breaks no rule. -/
def ofDeclarations (declarations : List Declaration) :
    Except PlanFault Pattern := do
  let pattern ← declarations.foldlM declare {}
  pattern.validate
  return pattern

end Pattern

end DeltaGraph
