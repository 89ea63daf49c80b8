import DeltaGraph.Proofs.Engine.Session
import DeltaGraph.Proofs.Graph.Naming

/-!
# Names in a session

All numbers that an engine puts into its graph come from the catalog.  If those
that others put there do too, the names that a pattern mentions stand for the
same throughout a session.  In any case they do so once the rows of the pattern
were asked for.
-/

namespace DeltaGraph

/-! ## Resolved names -/

section

variable {catalog later : Catalog} {typed : TypeId → Prop}
  {keyed : PropertyId → Prop}

theorem Catalog.NumbersValues.forall_key
    {named : List (String × Value)}
    {values : List (PropertyId × Value)}
    (numbers : catalog.NumbersValues named values)
    (keys : ∀ {key property}, catalog.NumbersKey key property →
      keyed property) :
    ∀ entry ∈ values, keyed entry.1 := by
  intro entry member
  obtain ⟨_, _, numbered, _⟩ := exists_left_of_forall₂ numbers member
  exact keys numbered

theorem Catalog.Numbers.forall_type
    {name : Option String}
    {type : Option TypeId}
    (numbers : catalog.Numbers name type)
    (names : ∀ {name type}, catalog.types.number? name = some type.number →
      typed type) :
    ∀ given ∈ type, typed given := by
  cases numbers with
  | none => exact fun given member => by cases member
  | some found =>
      intro given member
      cases member
      exact names found

/-- The steps of a resolved change use only what has a name, and the default
type. -/
theorem Change.Resolves.usesOnly
    {change : Change}
    {resolved : ResolvedChange}
    (resolves : Resolves catalog change resolved)
    (default : typed .default)
    (names : ∀ {name type}, catalog.types.number? name = some type.number →
      typed type)
    (keys : ∀ {key property}, catalog.NumbersKey key property →
      keyed property) :
    ∀ step ∈ resolved.steps, step.UsesOnly typed keyed := by
  intro step member
  cases resolves with
  | add resolves =>
      simp only [ResolvedChange.steps, List.mem_cons, List.not_mem_nil,
        or_false] at member
      rcases member with rfl | rfl | rfl
      · exact ⟨resolves.sourceType.forall_type names,
          resolves.sourceValues.forall_key keys⟩
      · exact ⟨resolves.targetType.forall_type names,
          resolves.targetValues.forall_key keys⟩
      · refine ⟨?_, resolves.edgeValues.forall_key keys⟩
        obtain ⟨given, numbers, same⟩ := resolves.type
        rw [same]
        cases given with
        | none => exact default
        | some type => exact numbers.forall_type names type rfl
  | remove resolves =>
      rw [List.mem_singleton.mp member]
      trivial

theorem Change.usesOnly_of_resolves
    {changes : List Change}
    {resolved : List ResolvedChange}
    (resolves : List.Forall₂ (Change.Resolves catalog) changes resolved)
    (default : typed .default)
    (names : ∀ {name type}, catalog.types.number? name = some type.number →
      typed type)
    (keys : ∀ {key property}, catalog.NumbersKey key property →
      keyed property) :
    ∀ step ∈ resolved.flatMap ResolvedChange.steps,
      step.UsesOnly typed keyed := by
  intro step member
  obtain ⟨given, among, member⟩ := List.mem_flatMap.mp member
  obtain ⟨change, _, here⟩ := exists_left_of_forall₂ resolves among
  exact here.usesOnly default names keys step member

end

/-! ## Names throughout a session -/

namespace Session

variable {session : Session}

/-- A session in which the catalog has names for all numbers in the graph. -/
def Named (session : Session) : Prop :=
  session.services.graph.Named session.services.catalog

theorem Sound.extends_run (sound : session.Sound) (calls : List Call) :
    session.services.catalog.Extends (session.run calls).services.catalog := by
  induction calls generalizing session with
  | nil => exact .refl _
  | cons call rest inductionHypothesis =>
      exact (sound.extends_call call).trans
        (inductionHypothesis (sound.call call))

end Session

end DeltaGraph
