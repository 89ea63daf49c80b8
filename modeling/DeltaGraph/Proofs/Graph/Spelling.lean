import DeltaGraph.Proofs.Graph.Attempt
import DeltaGraph.Proofs.Graph.Naming

/-!
# Graphs spelled out

A graph holds the numbers of types and properties, and these numbers depend on
what else was interned.  Spelled out, with names in place of numbers, a graph
does not depend on that: a step whose names are spelled out does to a graph
spelled out what the step does to the graph.  A catalog that gets more names
spells out a graph as before.
-/

namespace DeltaGraph

/-- Property values by key. -/
abbrev SpelledProperties := String → Option Value

/-- The values of a list set one after another. -/
def SpelledProperties.setAll
    (properties : SpelledProperties)
    (values : List (String × Value)) :
    SpelledProperties :=
  values.foldl
    (fun properties (key, value) => Function.update properties key (some value))
    properties

/-- A vertex with the name of its type. -/
structure SpelledVertex where
  type : Option String := some "_default"
  properties : SpelledProperties := fun _ => none

/-- The ends of an edge and the name of its type. -/
structure SpelledLink where
  source : VertexId
  target : VertexId
  type : String
  deriving DecidableEq

/-- An edge with the keys of its properties. -/
structure SpelledEdge where
  id : EdgeId
  history : EdgeHistory
  properties : SpelledProperties

/-- A graph and its pending batch, with names in place of numbers. -/
@[ext] structure SpelledGraph where
  vertices : VertexId → Option SpelledVertex
  edges : SpelledLink → Option SpelledEdge
  freshEdge : Nat
  batch : SpelledLink → Bool
  created : VertexId → Bool

/-- One step of staging a batch, with names in place of numbers. -/
inductive SpelledStep
  | putVertex (vertex : VertexId) (type : Option String)
      (values : List (String × Value))
  | addEdge (link : SpelledLink) (values : List (String × Value))
  | removeEdge (link : SpelledLink)

namespace SpelledGraph

/-- The graph in which a vertex has the given type, if one is given, and
values. -/
def writeVertex
    (graph : SpelledGraph)
    (vertex : VertexId)
    (type : Option String)
    (values : List (String × Value)) : SpelledGraph :=
  let stored := (graph.vertices vertex).getD {}
  { graph with
    vertices := Function.update graph.vertices vertex
      (some ⟨type.or stored.type, stored.properties.setAll values⟩)
    created := Function.update graph.created vertex true }

/-- The graph in which a vertex is known. -/
def ensureVertex (graph : SpelledGraph) (vertex : VertexId) : SpelledGraph :=
  if (graph.vertices vertex).isSome then graph
    else graph.writeVertex vertex none []

/-- The graph in which the batch has added an edge. -/
def writeEdge
    (graph : SpelledGraph)
    (link : SpelledLink)
    (values : List (String × Value)) :
    SpelledGraph :=
  let batch := Function.update graph.batch link true
  match graph.edges link with
  | some edge =>
      { graph with
        batch
        edges := Function.update graph.edges link
          (some { edge with
            history := edge.history.add
            properties := edge.properties.setAll values }) }
  | none =>
      { graph with
        batch
        edges := Function.update graph.edges link
          (some ⟨⟨graph.freshEdge⟩, .added,
              SpelledProperties.setAll (fun _ => none) values⟩)
        freshEdge := graph.freshEdge + 1 }

/-- Removes an edge, if there is one to remove. -/
def removeEdge?
    (graph : SpelledGraph)
    (link : SpelledLink) : Option SpelledGraph := do
  let edge ← graph.edges link
  let history ← edge.history.remove?
  return { graph with
    batch := Function.update graph.batch link true
    edges := Function.update graph.edges link (some { edge with history }) }

/-- The graph after a step that is not refused. -/
def stage (graph : SpelledGraph) : SpelledStep → SpelledGraph
  | .putVertex vertex type values =>
      if (graph.vertices vertex).isSome && !graph.created vertex then graph
      else graph.writeVertex vertex type values
  | .addEdge link values =>
      ((graph.ensureVertex link.source).ensureVertex link.target).writeEdge link
        values
  | .removeEdge link => (graph.removeEdge? link).getD graph

/-- The graph after steps that are not refused. -/
def stageAll (graph : SpelledGraph) (steps : List SpelledStep) : SpelledGraph :=
  steps.foldl stage graph

/-- Commits the batch: what belongs to the merged version stays. -/
def commit (graph : SpelledGraph) : SpelledGraph :=
  { graph with
    edges := fun link =>
      ((graph.edges link).filter (·.history.visible .merged)).map fun edge =>
        { edge with history := .committed }
    batch := fun _ => false
    created := fun _ => false }

end SpelledGraph

/-! ## Spelling -/

namespace Catalog

/-- The property with a key. -/
def property? (catalog : Catalog) (key : String) : Option PropertyId :=
  (catalog.properties.number? key).map Id.mk

/-- The link with the ends and the name of the type. -/
def link? (catalog : Catalog) (link : SpelledLink) : Option Link :=
  (catalog.types.number? link.type).map fun number =>
    ⟨link.source, link.target, ⟨number⟩⟩

end Catalog

/-- The values by key instead of property. -/
def Properties.spell
    (catalog : Catalog)
    (properties : Properties) : SpelledProperties :=
  fun key => (catalog.property? key).bind (properties[·]?)

/-- The vertex with names in place of numbers. -/
def Vertex.spell (catalog : Catalog) (vertex : Vertex) : SpelledVertex :=
  ⟨catalog.typeName? vertex.type, vertex.properties.spell catalog⟩

/-- The edge with keys in place of numbers. -/
def Edge.spell (catalog : Catalog) (edge : Edge) : SpelledEdge :=
  ⟨edge.id, edge.history, edge.properties.spell catalog⟩

/-- The graph with names in place of numbers. -/
def Graph.spell (catalog : Catalog) (graph : Graph) : SpelledGraph where
  vertices vertex := (graph.vertices[vertex]?).map (Vertex.spell catalog)
  edges link :=
    ((catalog.link? link).bind (graph.edges[·]?)).map (Edge.spell catalog)
  freshEdge := graph.freshEdge
  batch link := (catalog.link? link).any (graph.batch.contains ·)
  created vertex := graph.created.contains vertex

/-- The step is one with the names in place of the numbers. -/
inductive Catalog.Spells (catalog : Catalog) : SpelledStep → BatchStep → Prop
  | putVertex (vertex : VertexId) {name : Option String} {type : Option TypeId}
      {spelled : List (String × Value)} {values : List (PropertyId × Value)}
      (typed : catalog.Numbers name type)
      (valued : catalog.NumbersValues spelled values) :
      Spells catalog (.putVertex vertex name spelled)
        (.putVertex vertex type values)
  | addEdge {named : SpelledLink} {link : Link}
      {spelled : List (String × Value)}
      {values : List (PropertyId × Value)}
      (linked : catalog.link? named = some link)
      (valued : catalog.NumbersValues spelled values) :
      Spells catalog (.addEdge named spelled) (.addEdge link values)
  | removeEdge {named : SpelledLink} {link : Link}
      (linked : catalog.link? named = some link) :
      Spells catalog (.removeEdge named) (.removeEdge link)

/-- A number belongs to one name. -/
theorem Dictionary.number?_injective
    {dictionary : Dictionary}
    {name other : String}
    {number : Nat}
    (found : dictionary.number? name = some number)
    (otherFound : dictionary.number? other = some number) : name = other := by
  have place : dictionary.names[number]? = some name := getElem?_of_idxOf? found
  have otherPlace : dictionary.names[number]? = some other :=
    getElem?_of_idxOf? otherFound
  exact Option.some.inj (place.symm.trans otherPlace)

/-- If what is read for numbers changes at one number only, then what is read
for names changes at its name only. -/
theorem read_update
    {Name Number β : Type}
    [DecidableEq Name]
    (before after : Option Number → β)
    {number? : Name → Option Number}
    {name : Name}
    {number : Number}
    (numbers : number? name = some number)
    (injective : ∀ {other}, number? other = some number → other = name)
    (none : after none = before none)
    (others : ∀ another, number ≠ another →
      after (some another) = before (some another)) :
    (fun other => after (number? other)) =
      Function.update (fun other => before (number? other)) name
        (after (some number)) := by
  funext other
  by_cases same : other = name
  · subst same
    rw [Function.update_self, numbers]
  · rw [Function.update_of_ne same]
    cases found : number? other with
    | none => exact none
    | some another =>
        refine others another ?_
        rintro rfl
        exact same (injective found)

section

variable {catalog later : Catalog}

namespace Catalog

theorem property?_eq_some_iff {key : String} {property : PropertyId} :
    catalog.property? key = some property ↔
      catalog.NumbersKey key property := by
  simp only [property?, Option.map_eq_some_iff, NumbersKey, Id.ext_iff]
  constructor
  · rintro ⟨number, found, same⟩
    exact same ▸ found
  · exact fun found => ⟨_, found, rfl⟩

/-- A link spelled with names is a numbered link exactly when the ends agree and
the catalog numbers the type so. -/
theorem link?_eq_some_iff {named : SpelledLink} {link : Link} :
    catalog.link? named = some link ↔
      named.source = link.source ∧ named.target = link.target ∧
      catalog.types.number? named.type = some link.type.number := by
  obtain ⟨source, target, ⟨number⟩⟩ := link
  simp only [link?, Option.map_eq_some_iff, Link.mk.injEq, Id.mk.injEq]
  constructor
  · rintro ⟨_, found, rfl, rfl, rfl⟩
    exact ⟨rfl, rfl, found⟩
  · rintro ⟨rfl, rfl, found⟩
    exact ⟨_, found, rfl, rfl, rfl⟩

/-- Two spelled links that are one numbered link are spelled alike. -/
theorem link?_injective
    {named other : SpelledLink}
    {link : Link}
    (linked : catalog.link? named = some link)
    (otherLinked : catalog.link? other = some link) :
    named = other := by
  obtain ⟨source, target, typed⟩ := link?_eq_some_iff.mp linked
  obtain ⟨otherSource, otherTarget, otherTyped⟩ :=
    link?_eq_some_iff.mp otherLinked
  obtain ⟨_, _, name⟩ := named
  obtain ⟨_, _, otherName⟩ := other
  cases source.trans otherSource.symm
  cases target.trans otherTarget.symm
  cases Dictionary.number?_injective typed otherTyped
  rfl

end Catalog

/-! ## Values -/

theorem Properties.spell_empty :
    Properties.spell catalog ∅ = fun _ => none := by
  funext key
  cases property : catalog.property? key <;> simp [spell, property]

/-- Setting a property sets the value of its key in the spelling and of no other
key. -/
theorem Properties.spell_insert
    {key : String}
    {property : PropertyId}
    (numbers : catalog.NumbersKey key property)
    (properties : Properties)
    (value : Value) :
    Properties.spell catalog (properties.insert property value) =
      Function.update (properties.spell catalog) key (some value) := by
  have known := Catalog.property?_eq_some_iff.mpr numbers
  have read := read_update (·.bind (properties[·]?))
    (·.bind ((properties.insert property value)[·]?)) known
    (fun found =>
      Dictionary.number?_injective (Catalog.property?_eq_some_iff.mp found)
        numbers)
    rfl fun another different =>
      by simp [Std.ExtTreeMap.getElem?_insert, different]
  rwa [Option.bind_some, Std.ExtTreeMap.getElem?_insert_self] at read

theorem Properties.spell_setAll
    {spelled : List (String × Value)}
    {values : List (PropertyId × Value)}
    (valued : catalog.NumbersValues spelled values)
    (properties : Properties) :
    (properties.setAll values).spell catalog =
      (properties.spell catalog).setAll spelled := by
  induction valued generalizing properties with
  | nil => rfl
  | @cons entry value _ _ first _ inductionHypothesis =>
      obtain ⟨key, given⟩ := entry
      obtain ⟨property, value⟩ := value
      obtain ⟨numbers, rfl⟩ := first
      have set := inductionHypothesis (properties.insert property given)
      rw [spell_insert numbers] at set
      exact set

/-! ## Steps -/

namespace Graph

/-- The spelled graph has an edge for a link exactly when the graph has one for
the numbered link, spelled. -/
theorem spell_edges (graph : Graph) {named : SpelledLink} {link : Link}
    (linked : catalog.link? named = some link) :
    (graph.spell catalog).edges named =
      (graph.edges[link]?).map (Edge.spell catalog) := by
  simp [spell, linked]

/-- A replaced edge is replaced in the graph spelled out. -/
theorem spell_insert (graph : Graph) {named : SpelledLink} {link : Link}
    (linked : catalog.link? named = some link) (edge : Edge) :
    (fun other =>
      ((catalog.link? other).bind ((graph.edges.insert link edge)[·]?)).map
        (Edge.spell catalog)) =
      Function.update (graph.spell catalog).edges named
        (some (edge.spell catalog)) := by
  have read :=
    read_update
      (fun found => (found.bind (graph.edges[·]?)).map (Edge.spell catalog))
    (fun found =>
      (found.bind ((graph.edges.insert link edge)[·]?)).map
        (Edge.spell catalog))
    linked (fun found => Catalog.link?_injective found linked) rfl
      fun another different => by
        simp [Std.ExtTreeMap.getElem?_insert, different]
  rwa [Option.bind_some, Std.ExtTreeMap.getElem?_insert_self] at read

/-- Touching a link touches its spelling and no other one. -/
theorem spell_touch (graph : Graph) {named : SpelledLink} {link : Link}
    (linked : catalog.link? named = some link) :
    (fun other =>
      (catalog.link? other).any ((graph.batch.insert link).contains ·)) =
      Function.update (graph.spell catalog).batch named true := by
  have read := read_update (·.any (graph.batch.contains ·))
    (·.any ((graph.batch.insert link).contains ·)) linked
    (fun found => Catalog.link?_injective found linked) rfl
    fun another different => by
      have apart : (compare link another == .eq) = false := by
        rwa [beq_eq_false_iff_ne, Ne, Std.LawfulEqOrd.compare_eq_iff_eq]
      simp [apart]
  rwa [Option.any_some, Std.ExtTreeSet.contains_insert_self] at read

variable {graph : Graph}

/-- Writing a vertex commutes with spelling the graph. -/
theorem spell_writeVertex
    (default : catalog.typeName? .default = some "_default")
    {name : Option String}
    {type : Option TypeId}
    (typed : catalog.Numbers name type)
    {spelled : List (String × Value)}
    {values : List (PropertyId × Value)}
    (valued : catalog.NumbersValues spelled values)
    (vertex : VertexId) :
    (graph.writeVertex vertex type values).spell catalog =
      (graph.spell catalog).writeVertex vertex name spelled := by
  have stored : ((graph.vertices[vertex]?).getD {}).spell catalog =
      (((graph.vertices[vertex]?).map (Vertex.spell catalog)).getD {}) := by
    cases graph.vertices[vertex]? with
    | none => simp [Vertex.spell, default, Properties.spell_empty]
    | some stored => rfl
  have given (stored : Vertex) : catalog.typeName? (type.getD stored.type) =
      name.or (catalog.typeName? stored.type) := by
    cases typed with
    | none => rfl
    | some found => exact getElem?_of_idxOf? found
  ext1
  case vertices =>
    funext other
    by_cases same : other = vertex
    · subst same
      simp [spell, writeVertex, SpelledGraph.writeVertex, ←
        stored, Vertex.spell, given, Properties.spell_setAll valued]
    · have different : vertex ≠ other := Ne.symm same
      simp [spell, writeVertex, SpelledGraph.writeVertex,
        Function.update_of_ne same, Std.ExtTreeMap.getElem?_insert, different]
  case created =>
    funext other
    by_cases same : other = vertex
    · subst same
      simp [spell, writeVertex, SpelledGraph.writeVertex]
    · have different : vertex ≠ other := Ne.symm same
      simp [spell, writeVertex, SpelledGraph.writeVertex,
        Function.update_of_ne same, different]
  all_goals rfl

theorem spell_ensureVertex
    (default : catalog.typeName? .default = some "_default")
    (vertex : VertexId) :
    (graph.ensureVertex vertex).spell catalog =
      (graph.spell catalog).ensureVertex vertex := by
  have known :
      ((graph.spell catalog).vertices vertex).isSome =
        graph.vertices.contains vertex := by
    simp [spell]
  rw [ensureVertex, SpelledGraph.ensureVertex, known]
  split
  · rfl
  · exact spell_writeVertex default .none .nil vertex

/-- Writing an edge commutes with spelling the graph. -/
theorem spell_writeEdge
    {named : SpelledLink}
    {link : Link}
    (linked : catalog.link? named = some link)
    {spelled : List (String × Value)}
    {values : List (PropertyId × Value)}
    (valued : catalog.NumbersValues spelled values) :
    (graph.writeEdge link values).2.spell catalog =
      (graph.spell catalog).writeEdge named spelled := by
  rw [SpelledGraph.writeEdge, graph.spell_edges linked, writeEdge]
  cases graph.edges[link]? with
  | some edge =>
      have edges := graph.spell_insert linked
        { edge with
          history := edge.history.add
          properties := edge.properties.setAll values }
      rw [Edge.spell, Properties.spell_setAll valued] at edges
      exact SpelledGraph.ext rfl edges rfl (graph.spell_touch linked) rfl
  | none =>
      have edges := graph.spell_insert linked
        ⟨⟨graph.freshEdge⟩, .added, Properties.setAll ∅ values⟩
      rw [Edge.spell, Properties.spell_setAll valued, Properties.spell_empty]
        at edges
      exact SpelledGraph.ext rfl edges rfl (graph.spell_touch linked) rfl

theorem spell_removeEdge? {named : SpelledLink} {link : Link}
    (linked : catalog.link? named = some link) :
    (graph.removeEdge? link).map (spell catalog) =
      (graph.spell catalog).removeEdge? named := by
  rw [SpelledGraph.removeEdge?, graph.spell_edges linked, removeEdge?]
  cases graph.edges[link]? with
  | none => rfl
  | some edge =>
      have sameHistory : (edge.spell catalog).history = edge.history := rfl
      simp only [Option.map_some, Option.bind_eq_bind, Option.bind_some,
        sameHistory]
      cases edge.history.remove? with
      | none => rfl
      | some history =>
          have edges := graph.spell_insert linked { edge with history }
          exact congrArg some
            (SpelledGraph.ext rfl edges rfl (graph.spell_touch linked) rfl)

/-- An accepted step does to the graph spelled out what the step spelled out
does. -/
theorem spell_attempt
    (default : catalog.typeName? .default = some "_default")
    {named : SpelledStep}
    {step : BatchStep}
    (spells : catalog.Spells named step)
    {next : Graph}
    (taken : graph.attempt step = .ok next) :
    next.spell catalog = (graph.spell catalog).stage named := by
  cases spells with
  | putVertex vertex typed valued =>
      have committed : (((graph.spell catalog).vertices vertex).isSome &&
          !(graph.spell catalog).created vertex) =
          graph.isCommittedVertex vertex := by
        simp [spell, isCommittedVertex]
      rw [SpelledGraph.stage, committed]
      obtain ⟨old, _, rfl⟩ | ⟨new, rfl⟩ := putVertex_cases taken
      · rw [if_pos old]
      · rw [if_neg (by simp [new])]
        exact spell_writeVertex default typed valued vertex
  | @addEdge name link spelled values linked valued =>
      obtain ⟨source, target, _⟩ := Catalog.link?_eq_some_iff.mp linked
      rw [eq_of_attempt_addEdge taken, SpelledGraph.stage, source, target,
        ← spell_ensureVertex default, ← spell_ensureVertex default]
      exact spell_writeEdge linked valued
  | removeEdge linked =>
      cases taken
      rw [SpelledGraph.stage, ← spell_removeEdge? linked]
      exact (Option.getD_map (spell catalog) graph _).symm

/-- Accepted steps do to the graph spelled out what the steps spelled out do. -/
theorem spell_stageAll
    (default : catalog.typeName? .default = some "_default")
    {named : List SpelledStep}
    {steps : List BatchStep}
    (spells : List.Forall₂ catalog.Spells named steps)
    (accepted : graph.Accepts steps) :
    (graph.stageAll steps).spell catalog =
      (graph.spell catalog).stageAll named := by
  induction spells generalizing graph with
  | nil => rfl
  | @cons name step _ _ first _ inductionHypothesis =>
      obtain ⟨⟨next, taken⟩, acceptedRest⟩ := accepted
      have later := inductionHypothesis acceptedRest
      rw [stage_of_attempt taken, spell_attempt default first taken] at later
      rw [stageAll, List.foldl_cons, stage_of_attempt taken]
      exact later

/-- A commit does the same to the graph spelled out. -/
theorem spell_commit (catalog : Catalog) (graph : Graph) :
    graph.commit.2.spell catalog = (graph.spell catalog).commit := by
  ext1
  case edges =>
    funext named
    simp only [spell, SpelledGraph.commit]
    cases catalog.link? named with
    | none => rfl
    | some link =>
        have kept :
            graph.commit.2.edges[link]? = graph.survivor? .merged link :=
          getElem?_settle graph .merged link
        rw [Option.bind_some, Option.bind_some, kept, survivor?]
        cases graph.edges[link]? with
        | none => rfl
        | some edge =>
            cases shown : edge.history.visible .merged <;>
              simp [Option.filter, shown, Edge.spell]
  case batch =>
    funext named
    simp only [spell, SpelledGraph.commit]
    cases catalog.link? named with
    | none => rfl
    | some link => exact Std.ExtTreeSet.contains_empty
  case created =>
    have fresh : graph.commit.2.created = ∅ := rfl
    funext vertex
    simp [spell, SpelledGraph.commit, fresh]
  all_goals rfl

end Graph

/-! ## More names -/

/-- More names make no difference where the numbers without a name count as
missing. -/
theorem Dictionary.congr_of_prefix
    {β : Type}
    {dictionary later : Dictionary}
    (grows : dictionary.names <+: later.names)
    (name : String)
    (read : Option Nat → β)
    (unnamed : ∀ number, dictionary.size ≤ number →
      read (some number) = read none) :
    read (later.number? name) = read (dictionary.number? name) := by
  cases known : dictionary.number? name with
  | some number => rw [Dictionary.number?_of_prefix grows known]
  | none =>
      cases added : later.number? name with
      | none => rfl
      | some number =>
          refine unnamed number (Nat.le_of_not_lt fun below => ?_)
          have before :=
            (Dictionary.number?_iff_of_prefix grows below name).mpr added
          rw [known] at before
          cases before

theorem Properties.spell_mono
    {properties : Properties}
    (named : properties.Named catalog)
    (grows : catalog.Extends later) :
    properties.spell later = properties.spell catalog := by
  funext key
  refine Dictionary.congr_of_prefix grows.properties key
    (fun number? => (number?.map Id.mk).bind (properties[·]?))
    fun number above => ?_
  refine Option.eq_none_iff_forall_ne_some.mpr fun value found => ?_
  exact Nat.not_lt_of_le above (named ⟨number⟩ value found)

/-- A vertex whose numbers have names keeps its spelling while the catalog
grows. -/
theorem Vertex.spell_mono
    {vertex : Vertex}
    (typed : catalog.NamesType vertex.type)
    (named : vertex.properties.Named catalog)
    (grows : catalog.Extends later) :
    vertex.spell later = vertex.spell catalog := by
  obtain ⟨more, same⟩ := grows.types
  have name : later.typeName? vertex.type = catalog.typeName? vertex.type := by
    rw [Catalog.typeName?, Catalog.typeName?, Dictionary.name?,
      Dictionary.name?, ← same]
    exact List.getElem?_append_left typed
  rw [spell, spell, name, Properties.spell_mono named grows]

/-- A catalog that gets more names spells out a graph as before. -/
theorem Graph.spell_mono
    {graph : Graph}
    (sound : graph.Sound)
    (named : graph.Named catalog)
    (grows : catalog.Extends later) :
    graph.spell later = graph.spell catalog := by
  ext1
  case vertices =>
    funext vertex
    simp only [spell]
    cases found : graph.vertices[vertex]? with
    | none => rfl
    | some stored =>
        obtain ⟨typed, valued⟩ := named.vertices vertex stored found
        exact congrArg some (Vertex.spell_mono typed valued grows)
  case edges =>
    funext link
    have again (found : Link) : (graph.edges[found]?).map (Edge.spell later) =
        (graph.edges[found]?).map (Edge.spell catalog) := by
      cases present : graph.edges[found]? with
      | none => rfl
      | some edge =>
          have valued := (named.edges found edge present).2
          simp only [Option.map_some, Edge.spell,
            Properties.spell_mono valued grows]
    simp only [spell, Option.map_bind, Function.comp_def, again]
    refine Dictionary.congr_of_prefix grows.types link.type
      (fun number? =>
        (number?.map fun number =>
          Link.mk link.source link.target ⟨number⟩).bind
        fun found => (graph.edges[found]?).map (Edge.spell catalog))
        fun number above => ?_
    refine Option.eq_none_iff_forall_ne_some.mpr fun edge shown => ?_
    obtain ⟨stored, found, _⟩ := Option.map_eq_some_iff.mp shown
    exact Nat.not_lt_of_le above (named.edges _ stored found).1
  case batch =>
    funext link
    refine Dictionary.congr_of_prefix grows.types link.type
      (fun number? =>
        (number?.map fun number => Link.mk link.source link.target ⟨number⟩).any
        (graph.batch.contains ·)) fun number above => ?_
    refine Bool.eq_false_iff.mpr fun touched => ?_
    obtain ⟨edge, found⟩ :=
      sound.tracked (Std.ExtTreeSet.contains_iff_mem.mp touched)
    exact Nat.not_lt_of_le above (named.edges _ edge found).1
  all_goals rfl

end

end DeltaGraph
