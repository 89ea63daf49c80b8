import DeltaGraph.Proofs.Plan.Implements
import DeltaGraph.Proofs.Execution.Delivery
import DeltaGraph.Proofs.Pattern.Valid

/-!
# Matches of a pattern

A match assigns a vertex to every variable and an edge to every relation, so
that the edges join the vertices and have the types asked for, the vertices have
the declared types, and the predicates hold.  The rows of a plan that implements
a pattern are the matches of the pattern.
-/

namespace DeltaGraph

/-- Whether two values pass the comparison; they do not if one is missing. -/
def Comparison.passes (comparison : Comparison) :
    Option Value → Option Value → Bool
  | some left, some right => comparison.holds left right
  | _, _ => false

/-- The value of the right-hand side of a predicate, given the values of
properties. -/
def Operand.value? (value : PropertyReference → Option Value) :
    Operand → Option Value
  | .property reference => value reference
  | .literal given => some given

/-- Whether the predicate holds, given the values of properties; it does not if
a value is missing or the values do not compare. -/
def Predicate.holds
    (predicate : Predicate)
    (value : PropertyReference → Option Value) : Bool :=
  predicate.comparison.passes (value predicate.left)
    (predicate.right.value? value)

/-- The edge joins the ends of the relation in a version of the graph and has
the type of the relation, if there is one. -/
def Relation.Joins
    (relation : Relation)
    (catalog : Catalog)
    (graph : Graph)
    (version : Version)
    (assigned : String → VertexId)
    (id : EdgeId) : Prop :=
  ∃ link edge, graph.edge? id = some (link, edge) ∧
    edge.history.visible version = true ∧
    link.source = assigned relation.source ∧
    link.target = assigned relation.target ∧
    ∀ name, relation.type = some name →
      catalog.types.number? name = some link.type.number

/-- The vertex has the type with the name. -/
def Graph.HasNamedType
    (graph : Graph)
    (catalog : Catalog)
    (vertex : VertexId)
    (name : String) :
    Prop :=
  ∃ type, graph.vertexType? vertex = some type ∧
    catalog.types.number? name = some type.number

namespace Pattern

/-- The value of a property of the element that a reference names: of the vertex
of a variable, or else of the edge of a relation. -/
def valueOf?
    (pattern : Pattern)
    (catalog : Catalog)
    (graph : Graph)
    (assigned : String → VertexId)
    (edges : List EdgeId)
    (reference : PropertyReference) :
    Option Value := do
  let property ← catalog.properties.number? reference.key
  if reference.element ∈ pattern.variableNames then
    graph.vertexProperty? (assigned reference.element) ⟨property⟩
  else
    let index ← pattern.relationNames.idxOf? reference.element
    graph.edgeProperty? (← edges[index]?) ⟨property⟩

/-- The vertices and edges match the pattern, each relation being read in a
version of its own.  The first declaration of a variable tells its type. -/
structure Matches
    (pattern : Pattern)
    (catalog : Catalog)
    (graph : Graph)
    (reading : Nat → Version)
    (assigned : String → VertexId)
    (edges : List EdgeId) : Prop where
  joins : List.Forall₂ (fun entry id =>
    entry.1.Joins catalog graph (reading entry.2) assigned id)
      pattern.relations.zipIdx edges
  types :
    ∀ name ∈ pattern.variableNames, ∀ type, pattern.typeOf? name = some type →
      graph.HasNamedType catalog (assigned name) type
  predicates : ∀ predicate ∈ pattern.predicates,
    predicate.holds (pattern.valueOf? catalog graph assigned edges) = true

/-- The row shows a match. -/
def Yields
    (pattern : Pattern)
    (catalog : Catalog)
    (graph : Graph)
    (reading : Nat → Version)
    (row : Row) : Prop :=
  ∃ assigned, row.vertices = pattern.variableNames.map assigned ∧
    pattern.Matches catalog graph reading assigned row.edges

end Pattern

/-- A variable of a valid pattern is assigned an end of an edge. -/
theorem Pattern.Matches.exists_edge_at
    {pattern : Pattern}
    {catalog : Catalog}
    {graph : Graph}
    {reading : Nat → Version}
    {assigned : String → VertexId}
    {edges : List EdgeId}
    (found : pattern.Matches catalog graph reading assigned edges)
    (valid : pattern.Valid)
    {name : String}
    (declared : name ∈ pattern.variableNames) :
    ∃ index id link edge direction, graph.edge? id = some (link, edge) ∧
      edge.history.visible (reading index) = true ∧
      link.near direction = assigned name := by
  obtain ⟨relation, used, touches⟩ := valid.touched declared
  obtain ⟨index, below, place⟩ := List.mem_iff_getElem.mp used
  have entry : (relation, index) ∈ pattern.relations.zipIdx :=
    List.mem_zipIdx_iff_getElem?.mpr
      (List.getElem?_eq_some_iff.mpr ⟨below, place⟩)
  obtain ⟨id, _, link, edge, shown, visible, source, target, _⟩ :=
    exists_right_of_forall₂ found.joins entry
  rcases touches with rfl | rfl
  · exact ⟨index, id, link, edge, .forward, shown, visible, source⟩
  · exact ⟨index, id, link, edge, .backward, shown, visible, target⟩

/-- Every list of vertices is the image of an order of different names. -/
theorem exists_assignment {order : List String} (different : order.Nodup)
    {vertices : List VertexId} (length : vertices.length = order.length) :
    ∃ assigned, order.map assigned = vertices := by
  refine ⟨fun name => vertices.getD (order.idxOf name) default, ?_⟩
  refine List.ext_getElem (by simpa using length.symm)
    fun slot below inside => ?_
  simp [different.idxOf_getElem, inside]

theorem Link.hasType_iff
    {catalog : Catalog}
    {name : Option String}
    {type : Option TypeId}
    (numbers : catalog.Numbers name type)
    (link : Link) :
    link.hasType type = true ↔
      ∀ given, name = some given →
        catalog.types.number? given = some link.type.number := by
  cases numbers with
  | none => simp [Link.hasType]
  | some found =>
      rename_i given number
      simp only [Link.hasType, Option.all_some, beq_iff_eq, Option.some.injEq,
        forall_eq', found, Id.ext_iff]

theorem Graph.hasType_iff
    {catalog : Catalog}
    {graph : Graph}
    {name : Option String}
    {type : Option TypeId}
    (numbers : catalog.Numbers name type)
    (vertex : VertexId) :
    graph.hasType type vertex = true ↔
      ∀ given, name = some given → graph.HasNamedType catalog vertex given := by
  cases numbers with
  | none => simp [Graph.hasType]
  | some found =>
      rename_i given number
      simp only [Graph.hasType, Option.all_some, beq_iff_eq, Option.some.injEq,
        forall_eq', Graph.HasNamedType, found]
      constructor
      · exact fun same => ⟨number, same, rfl⟩
      · rintro ⟨other, same, equal⟩
        rw [same, Id.ext_iff.mpr equal]

namespace Plan.Implements

variable {plan : Plan} {pattern : Pattern} {catalog : Catalog} {graph : Graph}
  {reading : Nat → Version} {assigned : String → VertexId} {edges : List EdgeId}

theorem finds_iff
    (sound : graph.Sound)
    {order : List String}
    {lookup : EdgeLookup}
    {relation : Relation}
    {index : Nat}
    (renders : lookup.Renders order catalog reading relation index)
    (id : EdgeId) :
    relation.Joins catalog graph (reading index) assigned id ↔
      lookup.Finds graph (order.map assigned) id := by
  simp only [EdgeLookup.Finds, List.getElem?_map, renders.source,
    renders.target, Option.map_some, Graph.mem_edgesJoining, Graph.Shows,
    Link.hasType_iff renders.type, renders.version, Relation.Joins,
    sound.edge?_eq_some_iff]
  constructor
  · rintro ⟨link, edge, ⟨found, number⟩, visible, source, target, typed⟩
    exact ⟨_, _, rfl, rfl, link, edge, ⟨found, visible, typed⟩, source, target,
      number⟩
  · rintro ⟨_, _, ⟨⟩, ⟨⟩, link, edge, ⟨found, visible, typed⟩, source, target,
      number⟩
    exact ⟨link, edge, ⟨found, number⟩, visible, source, target, typed⟩

theorem value?_eq
    (implements : plan.Implements pattern catalog reading)
    (graph : Graph)
    (assigned : String → VertexId)
    (edges : List EdgeId)
    {place : Place}
    {reference : PropertyReference}
    {property : PropertyId}
    (stands : place.StandsFor pattern plan.order reference.element)
    (numbers : catalog.NumbersKey reference.key property) :
    place.value? graph (plan.order.map assigned) edges property =
      pattern.valueOf? catalog graph assigned edges reference := by
  have key : catalog.properties.number? reference.key = some property.number :=
    numbers
  cases place with
  | vertex slot =>
      have found : plan.order[slot]? = some reference.element := stands
      have declared := (implements.mem_order _).mp (List.mem_of_getElem? found)
      simp [Place.value?, Pattern.valueOf?, key, declared, found]
  | edge index =>
      obtain ⟨missing, found⟩ := stands
      simp only [Place.value?, Pattern.valueOf?, key, missing, found,
        Option.bind_eq_bind, Option.bind_some, if_false]

theorem holds_eq
    (implements : plan.Implements pattern catalog reading)
    {condition : Condition}
    {predicate : Predicate}
    (renders : condition.Renders pattern plan.order catalog predicate) :
    condition.holds graph (plan.order.map assigned) edges =
      predicate.holds (pattern.valueOf? catalog graph assigned edges) := by
  have left :=
    implements.value?_eq graph assigned edges renders.place renders.property
  have right := renders.right
  rw [Predicate.holds, ← left, ← renders.comparison, Condition.holds]
  cases operand : predicate.right with
  | literal value =>
      cases other : condition.right with
      | literal another =>
          rw [operand, other] at right
          have same : another = value := right
          rw [same]
          cases condition.place.value? graph (plan.order.map assigned) edges
            condition.property <;>
            rfl
      | property place property =>
          rw [operand, other] at right
          cases right
  | property reference =>
      cases other : condition.right with
      | literal another =>
          rw [operand, other] at right
          cases right
      | property place property =>
          rw [operand, other] at right
          rw [Operand.value?, ←
            implements.value?_eq graph assigned edges right.1 right.2]
          rfl

theorem conditions_iff (implements : plan.Implements pattern catalog reading) :
    plan.conditions.all (·.holds graph (plan.order.map assigned) edges) = true ↔
      ∀ predicate ∈ pattern.predicates,
        predicate.holds (pattern.valueOf? catalog graph assigned edges) =
          true := by
  rw [List.all_eq_true]
  constructor
  · intro all predicate member
    obtain ⟨condition, found, renders⟩ :=
      exists_right_of_forall₂ implements.conditions member
    rw [← implements.holds_eq renders]
    exact all condition found
  · intro all condition member
    obtain ⟨predicate, found, renders⟩ :=
      exists_left_of_forall₂ implements.conditions member
    rw [implements.holds_eq renders]
    exact all predicate found

/-- The plan admits the image of its order exactly if it matches the pattern. -/
theorem admits_iff (implements : plan.Implements pattern catalog reading)
    (valid : pattern.Valid) (sound : graph.Sound) :
    plan.Admits graph ⟨plan.order.map assigned, edges⟩ ↔
      pattern.Matches catalog graph reading assigned edges := by
  have found :
      List.Forall₂
        (fun lookup edge => lookup.Finds graph (plan.order.map assigned) edge)
        plan.lookups edges ↔
      List.Forall₂
        (fun entry id =>
          entry.1.Joins catalog graph (reading entry.2) assigned id)
        pattern.relations.zipIdx edges :=
    (forall₂_congr_of_related implements.lookups (fun _ _ renders id =>
      finds_iff sound renders id) edges).symm
  have typed : List.Forall₂ (fun type vertex =>
        vertex ∈ graph.vertices ∧ graph.hasType type vertex = true) plan.types
        (plan.order.map assigned) ↔
      ∀ name ∈ plan.order, assigned name ∈ graph.vertices ∧
        ∀ type, pattern.typeOf? name = some type →
          graph.HasNamedType catalog (assigned name) type := by
    rw [List.forall₂_map_right_iff]
    have types := implements.types
    generalize plan.order = order at types ⊢
    generalize plan.types = numbers at types ⊢
    induction types with
    | nil => simp
    | cons first _ inductionHypothesis =>
        rw [List.forall₂_cons, Graph.hasType_iff first, List.forall_mem_cons]
        exact and_congr_right' inductionHypothesis
  rw [Admits, Resolves, found, typed, implements.conditions_iff]
  constructor
  · rintro ⟨types, joins, predicates⟩
    refine ⟨joins, fun name declared => ?_, predicates⟩
    exact (types name ((implements.mem_order name).mpr declared)).2
  · intro matching
    refine ⟨fun name bound => ?_, matching.joins, matching.predicates⟩
    have declared := (implements.mem_order name).mp bound
    refine ⟨?_, matching.types name declared⟩
    obtain ⟨_, _, link, edge, direction, shown, _, near⟩ :=
      matching.exists_edge_at valid declared
    rw [← near]
    exact sound.ends (sound.edge?_eq_some_iff.mp shown).1 direction

theorem row_eq (implements : plan.Implements pattern catalog reading) :
    plan.row (plan.order.map assigned) edges =
      ⟨pattern.variableNames.map assigned, edges⟩ := by
  rw [row, Row.mk.injEq]
  refine ⟨?_, rfl⟩
  have columns := implements.columns
  generalize pattern.variableNames = names at columns ⊢
  generalize plan.columns = slots at columns ⊢
  induction columns with
  | nil => rfl
  | cons first _ inductionHypothesis =>
      rw [List.filterMap_cons_some
        (by rw [List.getElem?_map, first, Option.map_some]),
        inductionHypothesis, List.map_cons]

/-- The bindings of a plan that implements a pattern are its matches. -/
theorem mem_bindings_iff (implements : plan.Implements pattern catalog reading)
    (valid : pattern.Valid) (sound : graph.Sound) {binding : Binding} :
    binding ∈ (plan.enumeration graph.walkable).bindings ↔
      ∃ assigned, binding.vertices = plan.order.map assigned ∧
        pattern.Matches catalog graph reading assigned binding.edges := by
  rw [(implements.wellFormed.lists_enumeration sound).mem_iff]
  obtain ⟨vertices, edges⟩ := binding
  constructor
  · intro admits
    have length : vertices.length = plan.order.length := by
      rw [← implements.wellFormed.types]
      exact admits.1.length_eq.symm
    obtain ⟨assigned, rfl⟩ := exists_assignment implements.different length
    exact ⟨assigned, rfl, (implements.admits_iff valid sound).mp admits⟩
  · rintro ⟨assigned, rfl, matching⟩
    exact (implements.admits_iff valid sound).mpr matching

/-- The rows of a plan that implements a pattern are its matches. -/
theorem mem_rows_iff (implements : plan.Implements pattern catalog reading)
    (valid : pattern.Valid) (sound : graph.Sound) {row : Row} :
    row ∈ plan.rows graph ↔ pattern.Yields catalog graph reading row := by
  simp only [rows, List.mem_map, implements.mem_bindings_iff valid sound]
  constructor
  · rintro ⟨⟨_, edges⟩, ⟨assigned, rfl, matching⟩, rfl⟩
    rw [implements.row_eq]
    exact ⟨assigned, rfl, matching⟩
  · rintro ⟨assigned, vertices, matching⟩
    refine ⟨⟨plan.order.map assigned, row.edges⟩, ⟨assigned, rfl, matching⟩, ?_⟩
    rw [implements.row_eq, ← vertices]

end Plan.Implements

/-! ## A growing catalog changes no match -/

namespace Pattern

/-- The catalog knows all names of types and all keys that the pattern
mentions. -/
structure Known (pattern : Pattern) (catalog : Catalog) : Prop where
  relations :
    ∀ relation ∈ pattern.relations, ∀ name, relation.type = some name →
      ∃ number, catalog.types.number? name = some number
  types :
    ∀ name ∈ pattern.variableNames, ∀ type, pattern.typeOf? name = some type →
      ∃ number, catalog.types.number? type = some number
  left : ∀ predicate ∈ pattern.predicates,
    ∃ number, catalog.properties.number? predicate.left.key = some number
  right : ∀ predicate ∈ pattern.predicates, ∀ reference,
    predicate.right = .property reference →
      ∃ number, catalog.properties.number? reference.key = some number

theorem Known.mono
    {pattern : Pattern}
    {catalog later : Catalog}
    (known : pattern.Known catalog)
    (grows : catalog.Extends later) :
    pattern.Known later where
  relations relation used name given :=
    (known.relations relation used name given).imp fun _ found =>
      Dictionary.number?_of_prefix grows.types found
  types name declared type given :=
    (known.types name declared type given).imp fun _ found =>
      Dictionary.number?_of_prefix grows.types found
  left predicate member :=
    (known.left predicate member).imp fun _ found =>
      Dictionary.number?_of_prefix grows.properties found
  right predicate member reference operand :=
    (known.right predicate member reference operand).imp fun _ found =>
      Dictionary.number?_of_prefix grows.properties found

/-- Planning a pattern makes its names known. -/
theorem known_of_implements
    {plan : Plan}
    {pattern : Pattern}
    {catalog : Catalog}
    {reading : Nat → Version}
    (implements : plan.Implements pattern catalog reading) :
    pattern.Known catalog where
  relations relation member name given := by
    obtain ⟨index, below, place⟩ := List.mem_iff_getElem.mp member
    have entry : (relation, index) ∈ pattern.relations.zipIdx :=
      List.mem_zipIdx_iff_getElem?.mpr
        (List.getElem?_eq_some_iff.mpr ⟨below, place⟩)
    obtain ⟨lookup, _, renders⟩ :=
      exists_right_of_forall₂ implements.lookups entry
    have numbers : catalog.Numbers relation.type lookup.type := renders.type
    rw [given] at numbers
    generalize lookup.type = type at numbers
    cases numbers with
    | some found => exact ⟨_, found⟩
  types name declared type given := by
    obtain ⟨number, _, numbers⟩ := exists_right_of_forall₂ implements.types
      ((implements.mem_order name).mpr declared)
    rw [given] at numbers
    cases numbers with
    | some found => exact ⟨_, found⟩
  left predicate member := by
    obtain ⟨condition, _, renders⟩ :=
      exists_right_of_forall₂ implements.conditions member
    exact ⟨_, renders.property⟩
  right predicate member reference operand := by
    obtain ⟨condition, _, renders⟩ :=
      exists_right_of_forall₂ implements.conditions member
    have right := renders.right
    rw [operand] at right
    cases other : condition.right with
    | literal value =>
        rw [other] at right
        cases right
    | property place property =>
        rw [other] at right
        exact ⟨_, right.2⟩

/-- The names that a pattern mentions stand for the same types and values of a
graph in two catalogs. -/
structure SameNames
    (pattern : Pattern)
    (catalog later : Catalog)
    (graph : Graph) : Prop where
  relations :
    ∀ relation ∈ pattern.relations, ∀ name, relation.type = some name →
      ∀ id link edge, graph.edge? id = some (link, edge) →
        (catalog.types.number? name = some link.type.number ↔
          later.types.number? name = some link.type.number)
  types :
    ∀ name ∈ pattern.variableNames, ∀ type, pattern.typeOf? name = some type →
      ∀ vertex, graph.HasNamedType catalog vertex type ↔
        graph.HasNamedType later vertex type
  left : ∀ predicate ∈ pattern.predicates, ∀ assigned edges,
    pattern.valueOf? catalog graph assigned edges predicate.left =
      pattern.valueOf? later graph assigned edges predicate.left
  right : ∀ predicate ∈ pattern.predicates, ∀ reference,
    predicate.right = .property reference → ∀ assigned edges,
      pattern.valueOf? catalog graph assigned edges reference =
        pattern.valueOf? later graph assigned edges reference

variable {pattern : Pattern} {catalog later : Catalog} {graph : Graph}
  {reading : Nat → Version}
  {assigned : String → VertexId} {edges : List EdgeId}

/-- A pattern whose names stand for the same has the same matches. -/
theorem SameNames.matches_iff (same : pattern.SameNames catalog later graph) :
    pattern.Matches catalog graph reading assigned edges ↔
      pattern.Matches later graph reading assigned edges := by
  have joins : List.Forall₂ (fun entry id =>
        entry.1.Joins catalog graph (reading entry.2) assigned id)
          pattern.relations.zipIdx edges ↔
      List.Forall₂ (fun entry id =>
        entry.1.Joins later graph (reading entry.2) assigned id)
          pattern.relations.zipIdx edges := by
    rw [List.forall₂_iff_zip, List.forall₂_iff_zip]
    refine and_congr_right fun _ =>
      forall_congr' fun entry => forall_congr' fun id => ?_
    refine imp_congr_right fun member => ?_
    have used := List.fst_mem_of_mem_zipIdx (List.of_mem_zip member).1
    unfold Relation.Joins
    refine exists_congr fun link =>
      exists_congr fun edge => and_congr_right fun found => ?_
    refine and_congr_right fun _ =>
      and_congr_right fun _ => and_congr_right fun _ => ?_
    refine forall_congr' fun name => imp_congr_right fun given => ?_
    exact same.relations _ used name given id link edge found
  have predicates (predicate : Predicate)
      (member : predicate ∈ pattern.predicates) :
      predicate.holds (pattern.valueOf? later graph assigned edges) =
        predicate.holds (pattern.valueOf? catalog graph assigned edges) := by
    rw [Predicate.holds, Predicate.holds, same.left predicate member]
    cases operand : predicate.right with
    | literal value => rfl
    | property reference =>
        rw [Operand.value?, Operand.value?,
          same.right predicate member reference operand]
  constructor
  · intro found
    refine ⟨joins.mp found.joins, fun name declared type given => ?_,
      fun predicate member => ?_⟩
    · exact (same.types name declared type given _).mp
        (found.types name declared type given)
    · rw [predicates predicate member]
      exact found.predicates predicate member
  · intro found
    refine ⟨joins.mpr found.joins, fun name declared type given => ?_,
      fun predicate member => ?_⟩
    · exact (same.types name declared type given _).mpr
        (found.types name declared type given)
    · rw [← predicates predicate member]
      exact found.predicates predicate member

theorem number?_eq_of_known {dictionary other : Dictionary}
    (grows : dictionary.names <+: other.names) {name : String}
    (known : ∃ number, dictionary.number? name = some number) :
    other.number? name = dictionary.number? name := by
  obtain ⟨number, found⟩ := known
  rw [found, Dictionary.number?_of_prefix grows found]

/-- Known names stand for the same in a catalog with more names. -/
theorem Known.sameNames
    (known : pattern.Known catalog)
    (grows : catalog.Extends later)
    (graph : Graph) :
    pattern.SameNames catalog later graph where
  relations relation used name given _ _ _ _ := by
    rw [number?_eq_of_known grows.types
      (known.relations relation used name given)]
  types name declared type given vertex := by
    rw [Graph.HasNamedType, Graph.HasNamedType,
      number?_eq_of_known grows.types (known.types name declared type given)]
  left predicate member _ _ := by
    rw [valueOf?, valueOf?,
      number?_eq_of_known grows.properties (known.left predicate member)]
  right predicate member reference operand _ _ := by
    rw [valueOf?, valueOf?,
      number?_eq_of_known grows.properties
        (known.right predicate member reference operand)]

/-- More names change no match of a pattern whose names are known. -/
theorem Known.yields_iff
    (known : pattern.Known catalog)
    (grows : catalog.Extends later)
    {row : Row} :
    pattern.Yields catalog graph reading row ↔
      pattern.Yields later graph reading row := by
  unfold Yields
  simp only [(known.sameNames grows graph).matches_iff]

end Pattern

end DeltaGraph
