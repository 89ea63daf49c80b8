import DeltaGraph.Pattern.Declaration

/-!
# Drafts of patterns

A pattern can be declared call by call without looking at faults in between.
The first conflict is remembered and returned when the draft is finished; what
is declared after it is ignored, but what was declared before it stays, also the
source of the relation whose target is in conflict.
-/

namespace DeltaGraph

/-- A pattern in the making, with the conflict that was found first. -/
structure Draft where
  pattern : Pattern := {}
  fault? : Option PlanFault := none
  deriving DecidableEq

namespace Draft

/-- The draft after one more appearance of a variable. -/
def mention (draft : Draft) (endpoint : Endpoint) : Draft :=
  match draft.fault? with
  | some _ => draft
  | none =>
      match Pattern.declareVariable endpoint draft.pattern.declared with
      | .ok declared =>
          { draft with pattern := { draft.pattern with declared } }
      | .error fault => { draft with fault? := some fault }

/-- The draft after one more declaration. -/
def declare (draft : Draft) : Declaration → Draft
  | .relation source target type name =>
      let mentioned := (draft.mention source).mention target
      match mentioned.fault? with
      | some _ => mentioned
      | none =>
          { mentioned with pattern := { mentioned.pattern with
              relations := mentioned.pattern.relations ++
                [⟨source.name, target.name, type, name⟩] } }
  | .predicate predicate =>
      match draft.fault? with
      | some _ => draft
      | none =>
          { draft with pattern := { draft.pattern with
              predicates := draft.pattern.predicates ++ [predicate] } }

/-- The draft after declarations. -/
def ofDeclarations (declarations : List Declaration) : Draft :=
  declarations.foldl declare {}

/-- The pattern, unless a conflict was found. -/
def outcome (draft : Draft) : Except PlanFault Pattern :=
  match draft.fault? with
  | some fault => .error fault
  | none => .ok draft.pattern

/-- The finished pattern, unless a conflict was found or the pattern breaks a
rule. -/
def build (draft : Draft) : Except PlanFault Pattern := do
  let pattern ← draft.outcome
  pattern.validate
  return pattern

end Draft

end DeltaGraph
