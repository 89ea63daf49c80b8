import DeltaGraph.Pattern.Incidence

/-!
# The order of variables

Variables are bound one after another.  The next variable is adjacent to as
many entries of the order so far as possible, then of the largest degree, then
the first by name.  When no variable is adjacent to the order so far, the one
of the largest degree starts a new component.
-/

namespace DeltaGraph
namespace Incidence

/-- A variable that may follow an order. -/
structure Candidate where
  name : String
  /-- The number of entries of the order that the variable is adjacent to. -/
  coverage : Nat
  degree : Nat

/-- Whether a candidate is preferred to an earlier one. -/
def Candidate.exceeds (candidate earlier : Candidate) : Bool :=
  earlier.coverage < candidate.coverage ||
    (candidate.coverage == earlier.coverage &&
      earlier.degree < candidate.degree)

/-- The best of the candidates, and the first of those that are equally good. -/
def Candidate.best? : List Candidate → Option Candidate
  | [] => none
  | first :: rest =>
      some (rest.foldl
        (fun best next => if next.exceeds best then next else best) first)

/-- A variable as a candidate. -/
def candidate
    (incidence : Incidence)
    (ordered : List String)
    (name : String) : Candidate :=
  let ends := incidence.endsAt name
  { name
    coverage := ordered.countP fun other => ends.any (·.neighbor == other)
    degree := ends.length }

/-- The variable that follows an order, out of the remaining ones. -/
def next?
    (incidence : Incidence)
    (ordered remaining : List String) : Option String :=
  let candidates := remaining.map (incidence.candidate ordered)
  (Candidate.best? (candidates.filter (·.coverage ≠ 0)) <|>
    Candidate.best? candidates).map
    Candidate.name

/-- An order followed by up to `count` of the remaining variables. -/
def extendOrder (incidence : Incidence) :
    (count : Nat) → (ordered remaining : List String) → List String
  | 0, ordered, _ => ordered
  | count + 1, ordered, remaining =>
      match incidence.next? ordered remaining with
      | none => ordered
      | some name =>
          incidence.extendOrder count (ordered ++ [name]) (remaining.erase name)

/-- A given start followed by all variables that are not in it. -/
def orderAfter (incidence : Incidence) (start : List String) : List String :=
  let remaining := incidence.names.filter (!start.contains ·)
  incidence.extendOrder remaining.length start remaining

/-- The order of all variables. -/
def order (incidence : Incidence) : List String :=
  incidence.orderAfter []

end Incidence

end DeltaGraph
