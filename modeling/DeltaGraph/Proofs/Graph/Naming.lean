import DeltaGraph.Proofs.Graph.Sound
import DeltaGraph.Proofs.Match

/-!
# Graphs whose numbers have names

Types and properties have numbers in a graph and names in a pattern.  If a
catalog has a name for every number in a graph, then a name that is added to the
catalog stands for nothing in the graph, and no pattern has other matches for
it.
-/

namespace DeltaGraph

theorem Dictionary.lt_size_of_number?
    {dictionary : Dictionary}
    {name : String}
    {number : Nat}
    (found : dictionary.number? name = some number) :
    number < dictionary.size :=
  (List.getElem?_eq_some_iff.mp (getElem?_of_idxOf? found)).1

/-- A number below the size of a dictionary has its name from that
dictionary. -/
theorem Dictionary.number?_iff_of_prefix
    {dictionary later : Dictionary}
    (grows : dictionary.names <+: later.names)
    {number : Nat}
    (below : number < dictionary.size)
    (name : String) :
    dictionary.number? name = some number ↔
      later.number? name = some number := by
  refine ⟨Dictionary.number?_of_prefix grows, fun found => ?_⟩
  have known : name ∈ dictionary.names := by
    obtain ⟨more, same⟩ := grows
    have place : later.names[number]? = some name := getElem?_of_idxOf? found
    rw [← same, List.getElem?_append_left below] at place
    exact List.mem_of_getElem? place
  obtain ⟨first, place⟩ := exists_idxOf? known
  have same : some first = some number :=
    (Dictionary.number?_of_prefix grows place).symm.trans found
  rw [← same]
  exact place

namespace Catalog

/-- The catalog has a name for the type. -/
def NamesType (catalog : Catalog) (type : TypeId) : Prop :=
  type.number < catalog.types.size

/-- The catalog has a key for the property. -/
def NamesProperty (catalog : Catalog) (property : PropertyId) : Prop :=
  property.number < catalog.properties.size

variable {catalog later : Catalog}

/-- A type that has a name keeps it. -/
theorem NamesType.mono {type : TypeId} (named : catalog.NamesType type)
    (grows : catalog.Extends later) : later.NamesType type :=
  Nat.lt_of_lt_of_le named grows.types.length_le

theorem NamesProperty.mono
    {property : PropertyId}
    (named : catalog.NamesProperty property)
    (grows : catalog.Extends later) :
    later.NamesProperty property :=
  Nat.lt_of_lt_of_le named grows.properties.length_le

end Catalog

/-- The catalog has keys for all properties. -/
def Properties.Named (properties : Properties) (catalog : Catalog) : Prop :=
  ∀ (property : PropertyId) (value : Value),
    properties[property]? = some value →
    catalog.NamesProperty property

/-- The catalog has names for the types and properties that a step mentions. -/
def BatchStep.Named (catalog : Catalog) : BatchStep → Prop
  | .putVertex _ type values =>
      (∀ given ∈ type, catalog.NamesType given) ∧
        ∀ entry ∈ values, catalog.NamesProperty entry.1
  | .addEdge link values =>
      catalog.NamesType link.type ∧
        ∀ entry ∈ values, catalog.NamesProperty entry.1
  | .removeEdge _ => True

/-- The catalog has names for all types and properties in a graph, and for the
default type. -/
structure Graph.Named (graph : Graph) (catalog : Catalog) : Prop where
  default : catalog.NamesType .default
  vertices :
    ∀ (vertex : VertexId) (stored : Vertex),
      graph.vertices[vertex]? = some stored →
      catalog.NamesType stored.type ∧ stored.properties.Named catalog
  edges : ∀ (link : Link) (edge : Edge), graph.edges[link]? = some edge →
    catalog.NamesType link.type ∧ edge.properties.Named catalog

/-! ## Tests of types and properties -/

/-- All properties pass a test. -/
def Properties.UseOnly
    (properties : Properties)
    (test : PropertyId → Prop) : Prop :=
  ∀ (property : PropertyId) (value : Value),
    properties[property]? = some value → test property

/-- The types and properties that a step mentions pass a test, except for the
type of an edge that is removed. -/
def BatchStep.UsesOnly
    (typed : TypeId → Prop)
    (keyed : PropertyId → Prop) : BatchStep → Prop
  | .putVertex _ type values =>
      (∀ given ∈ type, typed given) ∧ ∀ entry ∈ values, keyed entry.1
  | .addEdge link values => typed link.type ∧ ∀ entry ∈ values, keyed entry.1
  | .removeEdge _ => True

/-- All types and properties in a graph pass a test, and so does the default
type. -/
structure Graph.UsesOnly
    (graph : Graph)
    (typed : TypeId → Prop)
    (keyed : PropertyId → Prop) :
    Prop where
  default : typed .default
  vertices :
    ∀ (vertex : VertexId) (stored : Vertex),
      graph.vertices[vertex]? = some stored →
      typed stored.type ∧ stored.properties.UseOnly keyed
  edges : ∀ (link : Link) (edge : Edge), graph.edges[link]? = some edge →
    typed link.type ∧ edge.properties.UseOnly keyed

section

variable {typed : TypeId → Prop} {keyed : PropertyId → Prop}

/-- Setting given values uses the given keys besides those that were used. -/
theorem Properties.UseOnly.setAll
    {properties : Properties}
    (uses : properties.UseOnly keyed)
    {values : List (PropertyId × Value)}
    (given : ∀ entry ∈ values, keyed entry.1) :
    (properties.setAll values).UseOnly keyed := by
  induction values generalizing properties with
  | nil => exact uses
  | cons first rest inductionHypothesis =>
      refine inductionHypothesis ?_ fun entry member =>
        given entry (.tail _ member)
      intro property value found
      rw [Std.ExtTreeMap.getElem?_insert] at found
      split at found
      · rename_i same
        rw [Std.LawfulEqOrd.compare_eq_iff_eq] at same
        exact same ▸ given first (.head _)
      · exact uses property value found

theorem Properties.useOnly_empty : Properties.UseOnly ∅ keyed := by
  intro property value found
  simp at found

namespace Graph.UsesOnly

variable {graph : Graph}

/-- Before anything is stored only the default type is used. -/
theorem empty (default : typed .default) :
    Graph.empty.UsesOnly typed keyed where
  default := default
  vertices vertex stored found := by simp [Graph.empty] at found
  edges link edge found := by simp [Graph.empty] at found

/-- A graph passes weaker tests too. -/
theorem imp (uses : graph.UsesOnly typed keyed) {typedToo : TypeId → Prop}
    {keyedToo : PropertyId → Prop} (types : ∀ type, typed type → typedToo type)
    (properties : ∀ property, keyed property → keyedToo property) :
    graph.UsesOnly typedToo keyedToo where
  default := types _ uses.default
  vertices vertex stored found :=
    ⟨types _ (uses.vertices vertex stored found).1,
      fun property value held =>
        properties _
          ((uses.vertices vertex stored found).2 property value held)⟩
  edges link edge found :=
    ⟨types _ (uses.edges link edge found).1,
      fun property value held =>
        properties _ ((uses.edges link edge found).2 property value held)⟩

/-- A vertex is written with the type and the keys of the step. -/
theorem writeVertex (uses : graph.UsesOnly typed keyed) {vertex : VertexId}
    {type : Option TypeId} {values : List (PropertyId × Value)}
    (given : (BatchStep.putVertex vertex type values).UsesOnly typed keyed) :
    (graph.writeVertex vertex type values).UsesOnly typed keyed where
  default := uses.default
  vertices other stored found := by
    rw [Graph.writeVertex, Std.ExtTreeMap.getElem?_insert] at found
    split at found
    · cases found
      have before : typed (((graph.vertices[vertex]?).getD {}).type) ∧
          ((graph.vertices[vertex]?).getD {}).properties.UseOnly keyed := by
        cases known : graph.vertices[vertex]? with
        | none => exact ⟨uses.default, Properties.useOnly_empty⟩
        | some stored => exact uses.vertices vertex stored known
      refine ⟨?_, before.2.setAll given.2⟩
      cases type with
      | none => exact before.1
      | some type => exact given.1 type rfl
    · exact uses.vertices other stored found
  edges := uses.edges

/-- An end of an edge is stored with the default type and no values. -/
theorem ensureVertex (uses : graph.UsesOnly typed keyed) (vertex : VertexId) :
    (graph.ensureVertex vertex).UsesOnly typed keyed := by
  unfold Graph.ensureVertex
  split
  · exact uses
  · exact uses.writeVertex ⟨by simp, by simp⟩

/-- An edge is written with the type and the keys of the step. -/
theorem writeEdge (uses : graph.UsesOnly typed keyed) {link : Link}
    {values : List (PropertyId × Value)}
    (given : (BatchStep.addEdge link values).UsesOnly typed keyed) :
    (graph.writeEdge link values).2.UsesOnly typed keyed where
  default := uses.default
  vertices vertex stored found := by
    rw [writeEdge_vertices] at found
    exact uses.vertices vertex stored found
  edges other edge found := by
    rw [getElem?_writeEdge] at found
    split at found
    · rename_i same
      cases found
      refine ⟨same ▸ given.1, ?_⟩
      unfold addedEdge
      split
      · rename_i stored known
        exact (uses.edges link stored known).2.setAll given.2
      · exact Properties.useOnly_empty.setAll given.2
    · exact uses.edges other edge found

/-- Removing an edge brings nothing new into the graph. -/
theorem removeEdge?
    {next : Graph}
    (uses : graph.UsesOnly typed keyed)
    {link : Link}
    (removal : graph.removeEdge? link = some next) :
    next.UsesOnly typed keyed := by
  obtain ⟨stored, history, known, _, rfl⟩ := removeEdge?_eq_some removal
  refine ⟨uses.default, uses.vertices, fun other edge found => ?_⟩
  rw [Std.ExtTreeMap.getElem?_insert] at found
  split at found
  · rename_i same
    rw [Std.LawfulEqOrd.compare_eq_iff_eq] at same
    cases found
    exact same ▸ uses.edges link stored known
  · exact uses.edges other edge found

/-- A step brings in no types and keys but its own. -/
theorem stage
    (uses : graph.UsesOnly typed keyed)
    {step : BatchStep}
    (given : step.UsesOnly typed keyed) :
    (graph.stage step).UsesOnly typed keyed := by
  cases step with
  | putVertex vertex type values =>
      simp only [Graph.stage, putVertex]
      split
      · split <;> exact uses
      · exact uses.writeVertex given
  | addEdge link values =>
      simp only [Graph.stage, addEdge]
      split
      · exact uses
      · exact ((uses.ensureVertex link.source).ensureVertex
          link.target).writeEdge given
  | removeEdge link =>
      simp only [Graph.stage]
      cases removal : graph.removeEdge? link with
      | none => exact uses
      | some next => exact uses.removeEdge? removal

/-- A batch brings in no types and keys but those of its steps. -/
theorem stageAll (uses : graph.UsesOnly typed keyed) {steps : List BatchStep}
    (given : ∀ step ∈ steps, step.UsesOnly typed keyed) :
    (graph.stageAll steps).UsesOnly typed keyed := by
  induction steps generalizing graph with
  | nil => exact uses
  | cons step rest inductionHypothesis =>
      exact inductionHypothesis (uses.stage (given step (.head _)))
        fun other member => given other (.tail _ member)

/-- What is left at the end of a batch was used before. -/
theorem settle (uses : graph.UsesOnly typed keyed) (version : Version) :
    (graph.settle (·.visible version)).UsesOnly typed keyed where
  default := uses.default
  vertices := uses.vertices
  edges link edge found := by
    rw [getElem?_settle] at found
    obtain ⟨stored, known, _, rfl⟩ := survivor?_eq_some_iff.mp found
    exact uses.edges link stored known

theorem commit (uses : graph.UsesOnly typed keyed) :
    graph.commit.2.UsesOnly typed keyed :=
  uses.settle .merged

/-- What is stored again after a rollback was used before the batch. -/
theorem rollback (uses : graph.UsesOnly typed keyed) :
    graph.rollback.2.UsesOnly typed keyed where
  default := uses.default
  vertices vertex stored found := by
    rw [Graph.rollback, Std.ExtTreeMap.getElem?_filter'] at found
    exact uses.vertices vertex stored (Option.filter_eq_some_iff.mp found).1
  edges := (uses.settle .permanent).edges

end Graph.UsesOnly

end

/-! ## Names -/

variable {graph : Graph} {catalog later : Catalog}

/-- A step is named if it uses only types and keys that have names. -/
theorem BatchStep.named_iff {step : BatchStep} :
    step.Named catalog ↔
      step.UsesOnly catalog.NamesType catalog.NamesProperty := by
  cases step <;> rfl

theorem Graph.named_iff :
    graph.Named catalog ↔
      graph.UsesOnly catalog.NamesType catalog.NamesProperty :=
  ⟨fun named => ⟨named.default, named.vertices, named.edges⟩,
    fun uses => ⟨uses.default, uses.vertices, uses.edges⟩⟩

namespace Graph.Named

/-- The empty graph is named by the empty catalog, which knows the default
type. -/
theorem empty : Graph.empty.Named .empty :=
  named_iff.mpr (.empty Nat.zero_lt_one)

/-- A graph stays named when names are added to the catalog. -/
theorem mono (named : graph.Named catalog) (grows : catalog.Extends later) :
    graph.Named later :=
  named_iff.mpr ((named_iff.mp named).imp (fun _ known => known.mono grows)
    fun _ known => known.mono grows)

/-- A graph stays named by a step that is named. -/
theorem stage
    (named : graph.Named catalog)
    {step : BatchStep}
    (given : step.Named catalog) :
    (graph.stage step).Named catalog :=
  named_iff.mpr ((named_iff.mp named).stage (BatchStep.named_iff.mp given))

theorem stageAll
    (named : graph.Named catalog)
    {steps : List BatchStep}
    (given : ∀ step ∈ steps, step.Named catalog) :
    (graph.stageAll steps).Named catalog :=
  named_iff.mpr ((named_iff.mp named).stageAll fun step member =>
    BatchStep.named_iff.mp (given step member))

theorem commit (named : graph.Named catalog) : graph.commit.2.Named catalog :=
  named_iff.mpr (named_iff.mp named).commit

theorem rollback (named : graph.Named catalog) :
    graph.rollback.2.Named catalog :=
  named_iff.mpr (named_iff.mp named).rollback

/-! ## Matches -/

/-- The type and the keys of an edge that is found have names. -/
theorem of_edge?
    (named : graph.Named catalog)
    {id : EdgeId}
    {link : Link}
    {edge : Edge}
    (found : graph.edge? id = some (link, edge)) :
    catalog.NamesType link.type ∧ edge.properties.Named catalog := by
  obtain ⟨other, _, stored⟩ := Option.bind_eq_some_iff.mp found
  obtain ⟨present, known, same⟩ := Option.bind_eq_some_iff.mp stored
  cases same
  exact named.edges link edge known

/-- No vertex has a property that has no key. -/
theorem vertexProperty?_eq_none
    (named : graph.Named catalog)
    {property : PropertyId}
    (unnamed : ¬ catalog.NamesProperty property)
    (vertex : VertexId) :
    graph.vertexProperty? vertex property = none := by
  refine Option.eq_none_iff_forall_ne_some.mpr fun value found => unnamed ?_
  obtain ⟨stored, known, held⟩ := Option.bind_eq_some_iff.mp found
  exact (named.vertices vertex stored known).2 property value held

/-- No edge has a property that has no key. -/
theorem edgeProperty?_eq_none
    (named : graph.Named catalog)
    {property : PropertyId}
    (unnamed : ¬ catalog.NamesProperty property)
    (id : EdgeId) :
    graph.edgeProperty? id property = none := by
  refine Option.eq_none_iff_forall_ne_some.mpr fun value found => unnamed ?_
  obtain ⟨⟨link, edge⟩, known, held⟩ := Option.bind_eq_some_iff.mp found
  exact (named.of_edge? known).2 property value held

/-- Names that are added to the catalog do not change the value of a
reference. -/
theorem valueOf?_eq
    (named : graph.Named catalog)
    (grows : catalog.Extends later)
    (pattern : Pattern)
    (assigned : String → VertexId)
    (edges : List EdgeId)
    (reference : PropertyReference) :
    pattern.valueOf? catalog graph assigned edges reference =
      pattern.valueOf? later graph assigned edges reference := by
  unfold Pattern.valueOf?
  cases known : catalog.properties.number? reference.key with
  | some number => rw [Dictionary.number?_of_prefix grows.properties known]
  | none =>
      cases added : later.properties.number? reference.key with
      | none => rfl
      | some number =>
          have unnamed : ¬ catalog.NamesProperty ⟨number⟩ := by
            intro below
            rw [←
              Dictionary.number?_iff_of_prefix grows.properties below, known]
              at added
            cases added
          simp [named.vertexProperty?_eq_none unnamed,
            named.edgeProperty?_eq_none unnamed]

/-- A name that is added stands for nothing in the graph. -/
theorem sameNames (named : graph.Named catalog) (grows : catalog.Extends later)
    (pattern : Pattern) : pattern.SameNames catalog later graph where
  relations _ _ name _ _ _ _ found :=
    Dictionary.number?_iff_of_prefix grows.types (named.of_edge? found).1 name
  types _ _ name _ vertex := by
    refine exists_congr fun type => and_congr_right fun known => ?_
    obtain ⟨stored, found, rfl⟩ := Option.map_eq_some_iff.mp known
    exact Dictionary.number?_iff_of_prefix grows.types
      (named.vertices vertex stored found).1 name
  left predicate _ assigned edges :=
    named.valueOf?_eq grows pattern assigned edges predicate.left
  right _ _ reference _ assigned edges :=
    named.valueOf?_eq grows pattern assigned edges reference

end Graph.Named

end DeltaGraph
