import DeltaGraph.Proofs.Graph.Run
import DeltaGraph.Proofs.Match
import DeltaGraph.Proofs.Plan.OfPattern

/-!
# Rows are homomorphisms

The rows of a pattern over the committed graph are its homomorphisms into that
graph, each listed once.  A pending batch does not matter.
-/

namespace DeltaGraph

namespace Pattern

/-- The vertices and edges are the image of the pattern in the committed graph:
every edge joins the images of the ends of its relation and has its type, every
vertex has the types declared for its variables, and the predicates hold. -/
structure IsHomomorphism (pattern : Pattern) (catalog : Catalog) (graph : Graph)
    (assigned : String → VertexId) (edges : List EdgeId) : Prop where
  joins : List.Forall₂ (fun relation id =>
    relation.Joins catalog graph .permanent assigned id) pattern.relations edges
  types : ∀ declared ∈ pattern.declared, ∀ type, declared.type = some type →
    graph.HasNamedType catalog (assigned declared.name) type
  predicates : ∀ predicate ∈ pattern.predicates,
    predicate.holds (pattern.valueOf? catalog graph assigned edges) = true

/-- If the variables have different names, a variable has the type that it is
declared with. -/
theorem typeOf?_of_nodup
    {pattern : Pattern}
    (different : pattern.variableNames.Nodup)
    {declared : PatternVariable}
    (member : declared ∈ pattern.declared) :
    pattern.typeOf? declared.name = declared.type := by
  have found :
      pattern.declared.find? (·.name == declared.name) = some declared := by
    unfold variableNames at different
    generalize pattern.declared = entries at different member
    induction entries with
    | nil => cases member
    | cons first rest inductionHypothesis =>
        obtain ⟨apart, others⟩ := List.nodup_cons.mp different
        rcases List.mem_cons.mp member with rfl | later
        · simp
        · have unequal : first.name ≠ declared.name := by
            intro same
            apply apart
            rw [same]
            exact List.mem_map_of_mem later
          rw [List.find?_cons_of_neg (by simpa using unequal)]
          exact inductionHypothesis others later
  rw [typeOf?, find?, found]
  rfl

theorem matches_iff_isHomomorphism
    {pattern : Pattern}
    (different : pattern.variableNames.Nodup)
    {catalog : Catalog}
    {graph : Graph}
    {assigned : String → VertexId}
    {edges : List EdgeId} :
    pattern.Matches catalog graph (fun _ => .permanent) assigned edges ↔
      pattern.IsHomomorphism catalog graph assigned edges := by
  have joins : List.Forall₂ (fun (entry : Relation × Nat) id =>
        entry.1.Joins catalog graph .permanent assigned id)
          pattern.relations.zipIdx edges ↔
      List.Forall₂
        (fun relation id => relation.Joins catalog graph .permanent assigned id)
        pattern.relations edges := by
    conv_rhs =>
      rw [← List.zipIdx_map_fst 0 pattern.relations, List.forall₂_map_left_iff]
  constructor
  · rintro ⟨found, types, predicates⟩
    refine ⟨joins.mp found, fun declared member type given => ?_, predicates⟩
    apply types declared.name (List.mem_map_of_mem member)
    rw [typeOf?_of_nodup different member, given]
  · rintro ⟨found, types, predicates⟩
    refine ⟨joins.mpr found, fun name known type given => ?_, predicates⟩
    obtain ⟨declared, member, rfl⟩ := List.mem_map.mp known
    rw [typeOf?_of_nodup different member] at given
    exact types declared member type given

end Pattern

/-- Planning a valid pattern and running the plan gives the homomorphisms of the
pattern into the committed graph, without duplicates. -/
theorem Plan.collects_homomorphisms
    {pattern : Pattern}
    (valid : pattern.validate = .ok ())
    (different : pattern.variableNames.Nodup)
    {graph : Graph}
    (reachable : graph.Reachable)
    (catalog : Catalog)
    (counters : Counters) :
    ∃ plan later counts events finished,
      Plan.ofPattern pattern catalog = (.ok plan, later) ∧
        catalog.Extends later ∧
      plan.collectEvents graph counters = (.ok counts, events, finished) ∧
      (∀ event ∈ events, event.kind = .matched) ∧
      (events.map Event.row).Nodup ∧
      ∀ row, row ∈ events.map Event.row ↔
        ∃ assigned, row.vertices = pattern.variableNames.map assigned ∧
          pattern.IsHomomorphism later graph assigned row.edges := by
  have faultless := Pattern.fault?_of_validate valid
  have sound := reachable.sound
  obtain ⟨plan, later, planned, grows, implements, kind⟩ :=
    Plan.run_ofPattern faultless catalog
  obtain ⟨counts, finished, collected, _⟩ :=
    implements.wellFormed.collectEvents_eq sound counters
  have rows : (plan.events graph).map Event.row = plan.rows graph := by
    simp [Plan.events, Function.comp_def]
  refine ⟨plan, later, counts, plan.events graph, finished, planned, grows,
    collected, ?_, ?_, ?_⟩
  · intro event member
    obtain ⟨row, _, rfl⟩ := List.mem_map.mp member
    exact kind
  · rw [rows]
    exact implements.wellFormed.nodup_rows sound
  · intro row
    rw [rows, implements.mem_rows_iff (Pattern.valid_of_fault? faultless) sound]
    simp only [Pattern.Yields, Pattern.matches_iff_isHomomorphism different]

/-- Two relations that run in opposite directions, one of them of any type, and
a predicate between a variable and a relation, over a graph in which a removal
is pending. -/
theorem Plan.collects_homomorphisms_during_batch :
    let pattern : Pattern :=
      { declared := [⟨"a", some "person"⟩, ⟨"b", none⟩, ⟨"c", none⟩]
        relations :=
          [⟨"a", "b", some "knows", none⟩, ⟨"c", "b", none, some "r"⟩]
        predicates := [⟨⟨"a", "age"⟩, .less, .property ⟨"r", "weight"⟩⟩] }
    let graph := ((((Graph.empty.stage (.addEdge ⟨⟨1⟩, ⟨2⟩, ⟨1⟩⟩ [])).stage
      (.addEdge ⟨⟨1⟩, ⟨2⟩, ⟨2⟩⟩ [(⟨1⟩, .int 7)])).commit.2).stage
      (.removeEdge ⟨⟨1⟩, ⟨2⟩, ⟨1⟩⟩))
    pattern.validate = .ok () ∧ pattern.variableNames.Nodup ∧ graph.Reachable ∧
      ∃ plan later counts events finished,
        Plan.ofPattern pattern Catalog.empty = (.ok plan, later) ∧
        Catalog.empty.Extends later ∧
        plan.collectEvents graph {} = (.ok counts, events, finished) ∧
        (∀ event ∈ events, event.kind = .matched) ∧
        (events.map Event.row).Nodup ∧
        ∀ row, row ∈ events.map Event.row ↔
          ∃ assigned, row.vertices = pattern.variableNames.map assigned ∧
            pattern.IsHomomorphism later graph assigned row.edges := by
  intro pattern graph
  have valid : pattern.validate = .ok () := by decide +kernel
  have different : pattern.variableNames.Nodup := by decide
  have reachable : graph.Reachable :=
    .stage _ (.commit (.stage _ (.stage _ .empty)))
  exact ⟨valid, different, reachable,
    Plan.collects_homomorphisms valid different reachable Catalog.empty {}⟩

end DeltaGraph
