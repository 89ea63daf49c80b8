import DeltaGraph.Proofs.Execution.Ascending
import DeltaGraph.Proofs.Execution.Rejection
import DeltaGraph.Proofs.Maintenance.View
import DeltaGraph.Proofs.Plan.OfPattern

/-!
# Pending changes are not seen

The rows of a pattern are those of the committed graph.  While a batch is being
staged, a plan walks through edges and vertices that are not committed, but it
enumerates the same bindings in the same order and rejects as many of them: the
bindings have the same members and are in ascending order.
-/

namespace DeltaGraph

/-- The pattern without its predicates. -/
def Pattern.bare (pattern : Pattern) : Pattern :=
  { pattern with predicates := [] }

theorem Pattern.Valid.bare
    {pattern : Pattern}
    (valid : pattern.Valid) : pattern.bare.Valid where
  nonempty := valid.nonempty
  source := valid.source
  target := valid.target
  ends := valid.ends
  touched := valid.touched
  element member := by cases member

theorem Graph.Sound.typeNumber_of_edge?
    {graph : Graph}
    (sound : graph.Sound)
    {id : EdgeId}
    {link : Link}
    {edge : Edge}
    (found : graph.edge? id = some (link, edge)) :
    graph.typeNumber id = link.type.number := by
  obtain ⟨stored, rfl⟩ := sound.edge?_eq_some_iff.mp found
  exact sound.typeNumber_eq stored

namespace Plan.Implements

variable {plan other : Plan} {pattern : Pattern} {catalog later : Catalog}
  {graph now : Graph}
  {version another : Version}

/-- Without its conditions a plan implements the pattern without its
predicates. -/
theorem unconditional {reading : Nat → Version}
    (implements : plan.Implements pattern catalog reading) :
    plan.unconditional.Implements pattern.bare catalog reading where
  wellFormed := {
    stages := implements.wellFormed.stages
    types := implements.wellFormed.types
    start := implements.wellFormed.start
    columns := implements.wellFormed.columns
    shown := implements.wellFormed.shown
    rules := implements.wellFormed.rules
    lookups := implements.wellFormed.lookups }
  different := implements.different
  mem_order := implements.mem_order
  types := implements.types
  lookups := implements.lookups
  columns := implements.columns
  conditions := .nil

/-- The types of the edges of a match are the same in graphs that show the
same. -/
theorem key_eq
    (agrees : graph.ShowsAs version now another)
    (sound : graph.Sound)
    (nowSound : now.Sound)
    {assigned : String → VertexId}
    {binding : Binding}
    (found :
      pattern.Matches catalog graph (fun _ => version) assigned binding.edges) :
    binding.key graph = binding.key now := by
  have types :
      binding.edges.map graph.typeNumber =
        binding.edges.map now.typeNumber := by
    refine List.map_congr_left fun id member => ?_
    obtain ⟨_, _, link, edge, present, visible, _⟩ :=
      exists_left_of_forall₂ found.joins member
    obtain ⟨counterpart, image, _⟩ := agrees.edge sound nowSound present visible
    rw [sound.typeNumber_of_edge? present, nowSound.typeNumber_of_edge? image]
  rw [Binding.key, Binding.key, types]

/-- Plans that bind the variables in the same order enumerate the same matches
in the same order. -/
theorem bindings_eq
    (implements : plan.Implements pattern catalog fun _ => version)
    (otherImplements : other.Implements pattern later fun _ => another)
    (order : plan.order = other.order)
    (valid : pattern.Valid)
    (agrees : graph.ShowsAs version now another)
    (sound : graph.Sound)
    (nowSound : now.Sound)
    (same : ∀ assigned edges,
      pattern.Matches catalog graph (fun _ => version) assigned edges ↔
        pattern.Matches later now (fun _ => another) assigned edges) :
    (plan.enumeration graph.walkable).bindings =
      (other.enumeration now.walkable).bindings := by
  have members (binding : Binding) :
      binding ∈ (plan.enumeration graph.walkable).bindings ↔
        binding ∈ (other.enumeration now.walkable).bindings := by
    simp only [implements.mem_bindings_iff valid sound,
      otherImplements.mem_bindings_iff valid nowSound, order, same]
  have keys (binding : Binding)
      (member : binding ∈ (other.enumeration now.walkable).bindings) :
      binding.key graph = binding.key now := by
    obtain ⟨_, _, found⟩ := (implements.mem_bindings_iff valid sound).mp
      ((members binding).mpr member)
    exact key_eq agrees sound nowSound found
  have ordered :
      (other.enumeration now.walkable).bindings.Pairwise
        (Binding.Precedes graph) := by
    refine (other.pairwise_enumeration nowSound).imp_of_mem
      fun {left right} inLeft inRight => ?_
    rw [Binding.Precedes, Binding.Precedes, keys left inLeft,
      keys right inRight]
    exact id
  exact (plan.pairwise_enumeration sound).eq_of_mem_iff ordered members

/-- Plans that enumerate the same matches have the same rows. -/
theorem rows_eq
    {reading otherReading : Nat → Version}
    (implements : plan.Implements pattern catalog reading)
    (otherImplements : other.Implements pattern later otherReading)
    (order : plan.order = other.order)
    (valid : pattern.Valid)
    (sound : graph.Sound)
    (same : (plan.enumeration graph.walkable).bindings =
      (other.enumeration now.walkable).bindings) :
    plan.rows graph = other.rows now := by
  rw [rows, rows, ← same]
  refine List.map_congr_left fun binding member => ?_
  obtain ⟨assigned, vertices, _⟩ :=
    (implements.mem_bindings_iff valid sound).mp member
  rw [vertices, implements.row_eq, order, otherImplements.row_eq]

/-- Whatever is staged, a plan for the committed graph enumerates the same
bindings. -/
theorem bindings_stageAll
    (implements : plan.Implements pattern catalog fun _ => .permanent)
    (valid : pattern.Valid)
    (sound : graph.Sound)
    (steps : List BatchStep) :
    (plan.enumeration graph.walkable).bindings =
      (plan.enumeration (graph.stageAll steps).walkable).bindings := by
  have staged := sound.stageAll steps
  have agrees := (graph.continues_stageAll steps).showsAs staged
  exact implements.bindings_eq implements rfl valid agrees.symm sound staged
    fun assigned edges =>
      ⟨agrees.symm.transfers sound staged valid,
        agrees.transfers staged sound valid⟩

end Plan.Implements

/-- Whatever is staged, the plan of a valid pattern delivers the same rows in
the same order, and rejects as many, as before the batch. -/
theorem Plan.sees_no_pending_change
    {pattern : Pattern}
    (accepted : pattern.validate = .ok ())
    {graph : Graph}
    (reachable : graph.Reachable)
    (steps : List BatchStep)
    (catalog : Catalog) :
    ∃ plan later, Plan.ofPattern pattern catalog = (.ok plan, later) ∧
      (∀ counters others, ∃ counts events finished otherFinished,
        plan.collectEvents graph counters = (.ok counts, events, finished) ∧
        plan.collectEvents (graph.stageAll steps) others =
          (.ok counts, events, otherFinished)) ∧
      ∀ {σ : Type} (deliver : Delivery σ) (receiver : σ)
        (counters others : Counters), let before :=
          (Job.mk plan graph.indexed deliver).execute receiver counters
        let during :=
          (Job.mk plan (graph.stageAll steps).indexed deliver).execute receiver
            others
        before.1 = during.1 ∧ before.2.1 = during.2.1 := by
  have faultless := Pattern.fault?_of_validate accepted
  have valid := Pattern.valid_of_fault? faultless
  have sound := reachable.sound
  have staged := sound.stageAll steps
  obtain ⟨plan, later, planned, _, implements, _⟩ :=
    Plan.run_ofPattern faultless catalog
  have rows := implements.rows_eq implements rfl valid sound
    (implements.bindings_stageAll valid sound steps)
  have events : plan.events graph = plan.events (graph.stageAll steps) := by
    rw [Plan.events, Plan.events, rows]
  have tried := congrArg List.length
    (implements.unconditional.bindings_stageAll valid.bare sound steps)
  have alike {σ : Type} (deliver : Delivery σ) (receiver : σ)
      (counters others : Counters) :=
    implements.wellFormed.execute_alike implements.wellFormed sound staged
      events tried deliver
      receiver counters others
  refine ⟨plan, later, planned, fun counters others => ?_, alike⟩
  obtain ⟨counts, finished, collected, _⟩ :=
    implements.wellFormed.collectEvents_eq sound counters
  obtain ⟨otherCounts, otherFinished, otherCollected, _⟩ :=
    implements.wellFormed.collectEvents_eq staged others
  have outcome : (plan.collectEvents graph counters).1 =
      (plan.collectEvents (graph.stageAll steps) others).1 :=
    (alike collectEvent [] counters others).1
  rw [collected, otherCollected] at outcome
  cases outcome
  rw [← events] at otherCollected
  exact ⟨counts, plan.events graph, finished, otherFinished, collected,
    otherCollected⟩

/-- A batch that removes a committed edge, adds one parallel to it, and adds a
vertex, under a pattern with an untyped variable of another component. -/
theorem Plan.sees_no_pending_change_of_toggled_edge :
    let pattern : Pattern :=
      { declared := [⟨"a", none⟩, ⟨"b", none⟩, ⟨"c", none⟩, ⟨"d", none⟩]
        relations := [⟨"a", "b", none, none⟩, ⟨"c", "d", none, none⟩]
        predicates := [] }
    let graph := (Graph.empty.stage (.addEdge ⟨⟨1⟩, ⟨2⟩, .default⟩ [])).commit.2
    let steps : List BatchStep :=
      [.removeEdge ⟨⟨1⟩, ⟨2⟩, .default⟩, .addEdge ⟨⟨1⟩, ⟨2⟩, ⟨1⟩⟩ [],
        .putVertex ⟨3⟩ none []]
    pattern.validate = .ok () ∧ graph.Reachable ∧
      ∃ plan later, Plan.ofPattern pattern .empty = (.ok plan, later) ∧
        ∃ counts events finished otherFinished,
          plan.collectEvents graph {} = (.ok counts, events, finished) ∧
          plan.collectEvents (graph.stageAll steps) {} =
            (.ok counts, events, otherFinished) := by
  intro pattern graph steps
  have accepted : pattern.validate = .ok () := by decide +kernel
  have reachable : graph.Reachable := (Graph.Reachable.empty.stage _).commit
  obtain ⟨plan, later, planned, alike, _⟩ :=
    Plan.sees_no_pending_change accepted reachable steps .empty
  exact ⟨accepted, reachable, plan, later, planned, alike {} {}⟩

end DeltaGraph
