import DeltaGraph.Engine.Change
import DeltaGraph.Proofs.Catalog

/-!
# Resolving changes

Resolving changes only adds names to the catalog, and puts the numbers of the
names in their place.  It fails only at a removal of an edge whose type is not
known, not even from the changes before the removal.
-/

namespace DeltaGraph

theorem NamedValues.leads_resolve (values : NamedValues) :
    Leads Catalog.Extends values.resolve :=
  Leads.mapM fun (key, _) =>
    Leads.bind (fun catalog => (Catalog.internProperty_spec key catalog).1)
      fun _ catalog =>
        .refl catalog

theorem NewEdge.leads_resolve (edge : NewEdge) :
    Leads Catalog.Extends edge.resolve := by
  refine Leads.bind (fun catalog => (Catalog.internType?_spec _ catalog).1)
    fun _ => ?_
  refine Leads.bind edge.sourceValues.leads_resolve fun _ => ?_
  refine Leads.bind (fun catalog => (Catalog.internType?_spec _ catalog).1)
    fun _ => ?_
  refine Leads.bind edge.targetValues.leads_resolve fun _ => ?_
  refine Leads.bind (Catalog.leads_internElementType edge.type) fun _ => ?_
  exact Leads.bind edge.edgeValues.leads_resolve fun _ catalog => .refl catalog

theorem Change.leads_resolve (change : Change) :
    StepLeads Catalog.Extends change.resolve := by
  cases change with
  | add edge =>
      refine StepLeads.bind (fun catalog => ?_) fun _ catalog => .refl catalog
      exact edge.leads_resolve catalog
  | remove reference =>
      refine StepLeads.bind ?_ fun _ catalog => .refl catalog
      exact StepLeads.bind (Catalog.leads_findElementType reference.type)
        fun _ catalog =>
          .refl catalog

/-- The names of changes that are resolved are added to the catalog. -/
theorem Change.extends_of_resolved
    {changes : List Change}
    {catalog later : Catalog}
    {outcome : Except Error (List ResolvedChange)}
    (names : changes.mapM Change.resolve catalog = (outcome, later)) :
    catalog.Extends later := by
  have leads : StepLeads Catalog.Extends (changes.mapM Change.resolve) :=
    StepLeads.mapM Change.leads_resolve
  have grows := leads catalog
  rwa [names] at grows

/-! ## Numbers in place of names -/

/-- The resolved edge has the numbers of the names. -/
structure NewEdge.Resolves
    (edge : NewEdge)
    (catalog : Catalog)
    (resolved : ResolvedEdge) :
    Prop where
  source : resolved.link.source = edge.source
  target : resolved.link.target = edge.target
  type : catalog.NumbersElement edge.type resolved.link.type
  sourceType : catalog.Numbers edge.sourceType resolved.sourceType
  sourceValues :
    catalog.NumbersValues edge.sourceValues.toList resolved.sourceValues
  targetType : catalog.Numbers edge.targetType resolved.targetType
  targetValues :
    catalog.NumbersValues edge.targetValues.toList resolved.targetValues
  edgeValues : catalog.NumbersValues edge.edgeValues.toList resolved.edgeValues

/-- The link has the number of the name. -/
structure EdgeReference.Resolves
    (reference : EdgeReference)
    (catalog : Catalog)
    (link : Link) :
    Prop where
  source : link.source = reference.source
  target : link.target = reference.target
  type : catalog.NumbersElement reference.type link.type

/-- The resolved change has the numbers of the names. -/
inductive Change.Resolves (catalog : Catalog) : Change → ResolvedChange → Prop
  | add {edge : NewEdge} {resolved : ResolvedEdge}
      (resolves : edge.Resolves catalog resolved) :
      Resolves catalog (.add edge) (.add resolved)
  | remove {reference : EdgeReference} {link : Link}
      (resolves : reference.Resolves catalog link) :
      Resolves catalog (.remove reference) (.remove link)

theorem Change.Resolves.mono
    {catalog later : Catalog}
    (grows : catalog.Extends later)
    {change : Change}
    {resolved : ResolvedChange}
    (resolves : Resolves catalog change resolved) :
    Resolves later change resolved := by
  cases resolves with
  | add resolves =>
      exact .add {
        source := resolves.source
        target := resolves.target
        type := resolves.type.mono grows
        sourceType := resolves.sourceType.mono grows
        sourceValues := resolves.sourceValues.mono grows
        targetType := resolves.targetType.mono grows
        targetValues := resolves.targetValues.mono grows
        edgeValues := resolves.edgeValues.mono grows }
  | remove resolves =>
      exact .remove ⟨resolves.source, resolves.target, resolves.type.mono grows⟩

theorem Catalog.numbersElement_internElementType
    (name : Option String)
    (catalog : Catalog) :
    (internElementType name catalog).2.NumbersElement name
      (internElementType name catalog).1 :=
  ⟨_, (internType?_spec name catalog).2, rfl⟩

/-- A type that is found has the name. -/
theorem Catalog.numbersElement_of_findElementType
    {name : Option String}
    {type : TypeId}
    {catalog later : Catalog}
    (finds : findElementType name catalog = (.ok type, later)) :
    later.NumbersElement name type := by
  have grows : catalog.Extends later := by
    have leads := leads_findElementType name catalog
    rwa [finds] at leads
  obtain ⟨given, middle, looked, last⟩ := run_bind_eq_ok.mp finds
  cases last
  refine .mono grows ⟨given, ?_, rfl⟩
  cases name with
  | none =>
      cases looked
      exact .none
  | some name =>
      obtain ⟨_, _, got, looked⟩ := run_bind_eq_ok.mp looked
      cases got
      obtain ⟨_, _, _, looked⟩ := run_bind_eq_ok.mp looked
      cases known : catalog.types.number? name with
      | none =>
          rw [known] at looked
          cases looked
      | some number =>
          rw [known] at looked
          cases looked
          exact .some known

/-- The keys of values are numbered once they are interned. -/
theorem NamedValues.numbersValues_resolve
    (values : NamedValues)
    (catalog : Catalog) :
    (values.resolve catalog).2.NumbersValues values.toList
      (values.resolve catalog).1 := by
  let number (entry : String × Value) : StateM Catalog (PropertyId × Value) :=
    do
      return (← Catalog.internProperty entry.1, entry.2)
  have grows (entry : String × Value) : Leads Catalog.Extends (number entry) :=
    Leads.bind (fun catalog => (Catalog.internProperty_spec entry.1 catalog).1)
      fun _ catalog => .refl catalog
  change Catalog.NumbersValues (values.toList.mapM number catalog).2
    values.toList
    (values.toList.mapM number catalog).1
  generalize values.toList = entries
  induction entries generalizing catalog with
  | nil => exact .nil
  | cons entry rest inductionHypothesis =>
      rw [List.mapM_cons]
      have first := (Catalog.internProperty_spec entry.1 catalog).2
      exact .cons ⟨first.mono (Leads.mapM grows _), rfl⟩ (inductionHypothesis _)

/-- The names of an edge to add are numbered once they are interned. -/
theorem NewEdge.resolves_resolve (edge : NewEdge) (catalog : Catalog) :
    edge.Resolves (edge.resolve catalog).2 (edge.resolve catalog).1 := by
  let sourceType := Catalog.internType? edge.sourceType catalog
  let sourceValues := edge.sourceValues.resolve sourceType.2
  let targetType := Catalog.internType? edge.targetType sourceValues.2
  let targetValues := edge.targetValues.resolve targetType.2
  let type := Catalog.internElementType edge.type targetValues.2
  let edgeValues := edge.edgeValues.resolve type.2
  have resolved : edge.resolve catalog =
      ({ link := ⟨edge.source, edge.target, type.1⟩, sourceType := sourceType.1,
         sourceValues := sourceValues.1, targetType := targetType.1,
         targetValues := targetValues.1, edgeValues := edgeValues.1 },
         edgeValues.2) := rfl
  have afterType : type.2.Extends edgeValues.2 :=
    edge.edgeValues.leads_resolve _
  have afterTarget : targetValues.2.Extends edgeValues.2 :=
    (Catalog.leads_internElementType edge.type _).trans afterType
  have afterTargetType : targetType.2.Extends edgeValues.2 :=
    (edge.targetValues.leads_resolve _).trans afterTarget
  have afterSource : sourceValues.2.Extends edgeValues.2 :=
    (Catalog.internType?_spec edge.targetType _).1.trans afterTargetType
  have afterSourceType : sourceType.2.Extends edgeValues.2 :=
    (edge.sourceValues.leads_resolve _).trans afterSource
  rw [resolved]
  constructor
  case source => rfl
  case target => rfl
  case type =>
    exact (Catalog.numbersElement_internElementType edge.type _).mono afterType
  case sourceType =>
    exact (Catalog.internType?_spec edge.sourceType _).2.mono afterSourceType
  case sourceValues =>
    exact (edge.sourceValues.numbersValues_resolve _).mono afterSource
  case targetType =>
    exact (Catalog.internType?_spec edge.targetType _).2.mono afterTargetType
  case targetValues =>
    exact (edge.targetValues.numbersValues_resolve _).mono afterTarget
  case edgeValues => exact edge.edgeValues.numbersValues_resolve _

theorem Change.resolves_resolve
    {change : Change}
    {catalog later : Catalog}
    {resolved : ResolvedChange}
    (names : change.resolve catalog = (.ok resolved, later)) :
    Resolves later change resolved := by
  cases change with
  | add edge =>
      obtain ⟨value, middle, added, last⟩ := run_bind_eq_ok.mp names
      cases last
      cases added
      exact .add (edge.resolves_resolve catalog)
  | remove reference =>
      obtain ⟨link, middle, found, last⟩ := run_bind_eq_ok.mp names
      cases last
      obtain ⟨type, middle, found, last⟩ := run_bind_eq_ok.mp found
      cases last
      exact .remove ⟨rfl, rfl, Catalog.numbersElement_of_findElementType found⟩

/-- The names of changes are numbered once they are resolved. -/
theorem Change.resolves_of_resolved
    {changes : List Change}
    {catalog later : Catalog}
    {resolved : List ResolvedChange}
    (names : changes.mapM Change.resolve catalog = (.ok resolved, later)) :
    List.Forall₂ (Resolves later) changes resolved := by
  induction changes generalizing catalog resolved with
  | nil =>
      cases names
      exact .nil
  | cons change rest inductionHypothesis =>
      rw [List.mapM_cons] at names
      obtain ⟨first, middle, here, names⟩ := run_bind_eq_ok.mp names
      obtain ⟨others, final, there, last⟩ := run_bind_eq_ok.mp names
      cases last
      exact .cons ((resolves_resolve here).mono (extends_of_resolved there))
        (inductionHypothesis there)

/-- Names of changes are resolved one change after another. -/
theorem Change.resolved_append
    {changes more : List Change}
    {catalog later : Catalog}
    {resolved : List ResolvedChange}
    (names : (changes ++ more).mapM Change.resolve catalog =
      (.ok resolved, later)) :
    ∃ first middle rest,
      changes.mapM Change.resolve catalog = (.ok first, middle) ∧
      more.mapM Change.resolve middle = (.ok rest, later) ∧
      resolved = first ++ rest := by
  rw [List.mapM_append] at names
  obtain ⟨first, middle, here, names⟩ := run_bind_eq_ok.mp names
  obtain ⟨rest, last, there, result⟩ := run_bind_eq_ok.mp names
  cases result
  exact ⟨first, middle, rest, here, there, rfl⟩

/-! ## Unknown types -/

section

variable {catalog later : Catalog} {error : Error}

/-- A look-up fails if the name is not known. -/
theorem Catalog.findElementType_error {name : Option String}
    (fails : findElementType name catalog = (.error error, later)) :
    ∃ given, name = some given ∧ catalog.types.number? given = none ∧
      error = .unknownType given := by
  rcases run_bind_eq_error.mp fails with fails | ⟨_, _, _, last⟩
  case inr => cases last
  cases name with
  | none => cases fails
  | some given =>
      obtain first | ⟨_, _, got, fails⟩ := run_bind_eq_error.mp fails
      case inl => cases first
      cases got
      obtain first | ⟨_, _, _, fails⟩ := run_bind_eq_error.mp fails
      case inl => cases first
      cases known : catalog.types.number? given with
      | some number =>
          rw [known] at fails
          cases fails
      | none =>
          rw [known] at fails
          cases fails
          exact ⟨given, rfl, known, rfl⟩

namespace Change

theorem resolve_error
    {change : Change}
    (fails : change.resolve catalog = (.error error, later)) :
    ∃ reference name, change = .remove reference ∧ reference.type = some name ∧
      catalog.types.number? name = none ∧ error = .unknownType name := by
  cases change with
  | add edge =>
      obtain first | ⟨_, _, _, last⟩ := run_bind_eq_error.mp fails
      · cases first
      · cases last
  | remove reference =>
      obtain fails | ⟨_, _, _, last⟩ := run_bind_eq_error.mp fails
      case inr => cases last
      obtain fails | ⟨_, _, _, last⟩ := run_bind_eq_error.mp fails
      case inr => cases last
      obtain ⟨name, typed, unknown, same⟩ := Catalog.findElementType_error fails
      exact ⟨reference, name, rfl, typed, unknown, same⟩

/-- A removal among the changes is of a type that is not known, not even once
the names of the changes before it are. -/
structure MissesType
    (changes : List Change)
    (catalog : Catalog)
    (name : String) : Prop where
  exists_removal : ∃ before reference after resolved known,
    changes = before ++ .remove reference :: after ∧
    before.mapM Change.resolve catalog = (.ok resolved, known) ∧
    reference.type = some name ∧ known.types.number? name = none

/-- Changes fail to be resolved only if a type is not known. -/
theorem missesType_of_error {changes : List Change}
    (fails : changes.mapM Change.resolve catalog = (.error error, later)) :
    ∃ name, error = .unknownType name ∧ MissesType changes catalog name := by
  obtain ⟨before, change, after, resolved, known, split, names, failed⟩ :=
    exists_of_mapM_error fails
  obtain ⟨reference, name, rfl, typed, unknown, same⟩ := resolve_error failed
  exact ⟨name, same,
    ⟨before, reference, after, resolved, known, split, names, typed, unknown⟩⟩

end Change

end

end DeltaGraph
