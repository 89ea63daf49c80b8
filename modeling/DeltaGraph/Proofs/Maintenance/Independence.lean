import DeltaGraph.Proofs.Engine.Spelling
import DeltaGraph.Proofs.Maintenance.Safe
import Mathlib.Data.Multiset.Basic

/-!
# Results do not depend on other queries

Asking for rows, explaining queries and registering standing queries intern
names, and so decide which numbers types and properties have.  What the batches
of a run do and what a standing query is told do not depend on these numbers:
two runs of the same batches, with any other calls in between, lead to graphs
that agree.
-/

namespace DeltaGraph

/-! ## Rows and events on graphs that agree -/

section

variable {graph other : Graph} {catalog another : Catalog} {pattern : Pattern}

/-- Plans that implement a pattern have the same rows on graphs that agree. -/
theorem Plan.Implements.perm_rows
    {plan image : Plan}
    {reading : Nat → Version}
    (implements : plan.Implements pattern catalog reading)
    (implementsToo : image.Implements pattern another reading)
    (valid : pattern.Valid)
    (agrees : graph.AgreesWith catalog other another) :
    (plan.rows graph).Perm (image.rows other) := by
  refine (List.perm_ext_iff_of_nodup
    (implements.wellFormed.nodup_rows agrees.here.sound)
    (implementsToo.wellFormed.nodup_rows agrees.there.sound)).mpr fun row => ?_
  rw [implements.mem_rows_iff valid agrees.here.sound,
    implementsToo.mem_rows_iff valid agrees.there.sound]
  exact agrees.yields_iff

theorem DeltaPlan.Implements.perm_events
    {delta image : DeltaPlan}
    {start : Difference}
    (implements : delta.Implements pattern catalog start)
    (implementsToo : image.Implements pattern another start)
    (valid : pattern.Valid)
    (agrees : graph.AgreesWith catalog other another) :
    (delta.events graph).Perm (image.events other) := by
  have kind : delta.plan.rowKind = image.plan.rowKind := by
    rw [Plan.rowKind, Plan.rowKind, implements.startVersion,
      implementsToo.startVersion]
  rw [implements.plan.wellFormed.events_eq agrees.here.sound,
    implementsToo.plan.wellFormed.events_eq agrees.there.sound, Plan.events,
    Plan.events, kind]
  exact (implements.plan.perm_rows implementsToo.plan valid agrees).map _

/-- Standing plans for a pattern have the same events on graphs that agree. -/
theorem StandingPlan.Implements.perm_events {plan image : StandingPlan}
    (implements : plan.Implements pattern catalog)
    (implementsToo : image.Implements pattern another) (valid : pattern.Valid)
    (agrees : graph.AgreesWith catalog other another) :
    (plan.events graph).Perm (image.events other) := by
  unfold Implements at implements implementsToo
  unfold events
  generalize Relation.differences 0 pattern.relations = starts
    at implements implementsToo
  generalize plan.deltas = deltas at implements ⊢
  generalize image.deltas = images at implementsToo ⊢
  induction implements generalizing images with
  | nil =>
      cases implementsToo
      exact .nil
  | cons first _ inductionHypothesis =>
      cases implementsToo with
      | cons firstToo restToo =>
          rw [List.flatMap_cons, List.flatMap_cons]
          exact (first.perm_events firstToo valid agrees).append
            (inductionHypothesis _ restToo)

/-- The outcome of asking for rows, in whatever order they come. -/
def Engine.rowSet
    (pattern : Pattern)
    (services : Services) : Except Error (Multiset Row) :=
  (Engine.rows pattern services).1.map Multiset.ofList

/-- A pattern has the same rows on graphs that agree. -/
theorem Engine.rowSet_eq
    {services later : Services}
    (agrees :
      services.graph.AgreesWith services.catalog later.graph later.catalog)
    (pattern : Pattern) :
    rowSet pattern services = rowSet pattern later := by
  cases fault : pattern.fault? with
  | some found => rw [rowSet, rowSet, rows_of_fault fault, rows_of_fault fault]
  | none =>
      obtain ⟨plan, catalog, planned, grows, implements, _⟩ :=
        Plan.run_ofPattern fault services.catalog
      obtain ⟨image, last, imagePlanned, growsToo, implementsToo, _⟩ :=
        Plan.run_ofPattern fault later.catalog
      obtain ⟨_, run⟩ :=
        rows_eq_ok agrees.here.sound planned implements.wellFormed
      obtain ⟨_, runToo⟩ :=
        rows_eq_ok agrees.there.sound imagePlanned implementsToo.wellFormed
      have same :=
        implements.perm_rows implementsToo (Pattern.valid_of_fault? fault)
        (agrees.mono grows growsToo)
      rw [rowSet, rowSet, run, runToo]
      exact congrArg Except.ok (Multiset.coe_eq_coe.mpr same)

end

/-! ## Runs of the same batches -/

/-- Whether a sink collects events in memory. -/
def Outlets.inMemory (outlets : Outlets) (sink : SinkId) : Bool :=
  match outlets.sinks[sink]? with
  | some (.memory _) => true
  | _ => false

theorem Outlets.exists_newest {outlets : Outlets} {sink : SinkId}
    (memory : outlets.inMemory sink = true) :
    ∃ newest, outlets.sinks[sink]? = some (.memory newest) := by
  unfold inMemory at memory
  split at memory
  · rename_i newest found
    exact ⟨newest, found⟩
  · cases memory

namespace Session

variable {session : Session}

/-! ## What two runs agree on -/

/-- What does not depend on the numbers of types and properties is the same in
both sessions. -/
structure AgreesWith (session other : Session) : Prop where
  /-- Spelled out, both graphs have the same vertices and edges. -/
  graph : session.services.graph.AgreesWith session.services.catalog
    other.services.graph other.services.catalog
  edgeIds {link counterpart : Link}
    (corresponds :
      session.services.catalog.Corresponds other.services.catalog link
        counterpart) :
    (session.services.graph.edges[link]?).map Edge.id =
      (other.services.graph.edges[counterpart]?).map Edge.id
  rows (pattern : Pattern) :
    Engine.rowSet pattern session.services =
      Engine.rowSet pattern other.services
  reports {changes : List Change} {report image : BatchReport}
    (succeeds : (session.engine.apply changes session.services).1 = .ok report)
    (succeedsToo : (other.engine.apply changes other.services).1 = .ok image) :
    report.commit = image.commit ∧ report.missing = image.missing

/-- In the course of the calls a standing query for the pattern was registered
with a sink and got the handle, and it was not unsubscribed since. -/
def Registers
    (session : Session)
    (calls : List Call)
    (pattern : Pattern)
    (sink : SinkId)
    (handle : Handle) : Prop :=
  ∃ before after, calls = before ++ .subscribeSink pattern sink :: after ∧
    (session.run before).handle? (.subscribeSink pattern sink) = some handle ∧
    .unsubscribe handle ∉ after

/-- The sink is in memory, and no standing query but the one with the handle
delivers to it. -/
structure OwnsSink
    (session : Session)
    (handle : Handle)
    (sink : SinkId) : Prop where
  memory : session.services.outlets.inMemory sink = true
  alone : ∀ query ∈ session.engine.queries, query.sink = sink →
    query.handle = handle

/-- The sink is in memory, and no standing query delivers to it. -/
structure SparesSink (session : Session) (sink : SinkId) : Prop where
  memory : session.services.outlets.inMemory sink = true
  unused : ∀ query ∈ session.engine.queries, query.sink ≠ sink

/-- A batch that succeeds in both sessions sends the same events to both sinks,
in whatever order. -/
def TellsAlike
    (session : Session)
    (sink : SinkId)
    (other : Session)
    (image : SinkId) : Prop :=
  ∀ changes, session.succeeds (.apply changes) = true →
    other.succeeds (.apply changes) = true →
    ∃ events images : List Event,
      (session.call (.apply changes)).services.outlets.collected sink =
        session.services.outlets.collected sink ++ events ∧
      (other.call (.apply changes)).services.outlets.collected image =
        other.services.outlets.collected image ++ images ∧
      events.Perm images

variable {other : Session}

/-- Batches that succeed report the same on graphs that agree. -/
theorem reports_eq (sound : session.Sound) (otherSound : other.Sound)
    (agrees : session.services.graph.AgreesWith session.services.catalog
      other.services.graph other.services.catalog)
    {changes : List Change} {report image : BatchReport}
    (succeeds : (session.engine.apply changes session.services).1 = .ok report)
    (succeedsToo : (other.engine.apply changes other.services).1 = .ok image) :
    report.commit = image.commit ∧ report.missing = image.missing := by
  obtain ⟨resolved, catalog, _, _, names, accepted, _, commit, missing⟩ :=
    Engine.commits_of_apply sound.engine.planned sound.graph succeeds
  obtain ⟨counterparts, last, _, _, namesToo, acceptedToo, _, commitToo,
      missingToo⟩ :=
    Engine.commits_of_apply otherSound.engine.planned otherSound.graph
      succeedsToo
  have resolves := Change.resolves_of_resolved names
  have resolvesToo := Change.resolves_of_resolved namesToo
  have known :=
    agrees.mono (Change.extends_of_resolved names)
      (Change.extends_of_resolved namesToo)
  constructor
  · rw [commit, commitToo]
    exact (known.stageAll resolves resolvesToo accepted
      acceptedToo).summary_commit
  · rw [missing, missingToo]
    exact countMissing_eq known.here.default known.there.default resolves
      resolvesToo
      (known.aligns_linksIn .merged)

/-- Batches that succeed send the same events for standing queries for the same
pattern. -/
theorem perm_sentFor
    (sound : session.Sound)
    (otherSound : other.Sound)
    (agrees :
      session.services.graph.AgreesWith session.services.catalog
        other.services.graph other.services.catalog)
    {pattern : Pattern}
    (valid : pattern.Valid)
    {query image : StandingQuery}
    (maintains : session.Maintains query pattern)
    (maintainsToo : other.Maintains image pattern)
    {changes : List Change}
    (succeeds : session.succeeds (.apply changes) = true)
    (succeedsToo : other.succeeds (.apply changes) = true) :
    (session.sentFor query (.apply changes)).Perm
      (other.sentFor image (.apply changes)) := by
  obtain ⟨report, succeeds⟩ := exists_report succeeds
  obtain ⟨counterpart, succeedsToo⟩ := exists_report succeedsToo
  obtain ⟨resolved, catalog, _, _, names, accepted, _⟩ :=
    Engine.commits_of_apply sound.engine.planned sound.graph succeeds
  obtain ⟨counterparts, last, _, _, namesToo, acceptedToo, _⟩ :=
    Engine.commits_of_apply otherSound.engine.planned otherSound.graph
      succeedsToo
  have grows := Change.extends_of_resolved names
  have growsToo := Change.extends_of_resolved namesToo
  have staged :=
    (agrees.mono grows growsToo).stageAll (Change.resolves_of_resolved names)
    (Change.resolves_of_resolved namesToo) accepted acceptedToo
  rw [sentFor, sentFor, Engine.staged?_of_accepted names accepted,
    Engine.staged?_of_accepted namesToo acceptedToo]
  exact (maintains.2.mono grows).perm_events (maintainsToo.2.mono growsToo)
    valid staged

/-- What was registered is maintained. -/
theorem Sound.maintains_of_registers (sound : session.Sound) {calls : List Call}
    {pattern : Pattern} {sink : SinkId} {handle : Handle}
    (registers : session.Registers calls pattern sink handle) :
    pattern.Valid ∧ ∃ query : StandingQuery, query.handle = handle ∧
      query.sink = sink ∧
      (session.run calls).Maintains query pattern := by
  obtain ⟨before, after, rfl, accepted, kept⟩ := registers
  obtain ⟨faultless, query, rfl, delivers, maintains⟩ :=
    maintains_of_handle? rfl accepted
  refine ⟨Pattern.valid_of_fault? faultless, query, rfl, delivers sink rfl, ?_⟩
  rw [Session.run, List.foldl_append]
  exact maintains.run ((sound.run before).call _) kept

/-- A sink in memory collects what a batch that succeeds sends to it. -/
theorem Sound.collected_of_succeeds
    (sound : session.Sound)
    {sink : SinkId}
    (memory : session.services.outlets.inMemory sink = true)
    {changes : List Change}
    (succeeds : session.succeeds (.apply changes) = true) :
    (session.call (.apply changes)).services.outlets.collected sink =
      session.services.outlets.collected sink ++
        session.sentTo sink (.apply changes) := by
  obtain ⟨newest, found⟩ := Outlets.exists_newest memory
  obtain ⟨report, succeeds⟩ := exists_report succeeds
  have fair : session.failsAtSink changes = false := by
    rw [failsAtSink, succeeds]
  exact sound.collected_apply fair found

/-- A sink that no other standing query delivers to gets what is sent for its
own. -/
theorem Sound.sentTo_of_owns
    (sound : session.Sound)
    {query : StandingQuery}
    (member : query ∈ session.engine.queries)
    (owns : session.OwnsSink query.handle query.sink)
    (call : Call) :
    session.sentTo query.sink call = session.sentFor query call := by
  have same : session.engine.queries.filter (·.sink = query.sink) =
      session.engine.queries.filter (·.handle = query.handle) := by
    refine List.filter_congr fun other among =>
      decide_eq_decide.mpr ⟨owns.alone other among, ?_⟩
    intro handle
    rw [List.inj_on_of_nodup_map sound.engine.different among member handle]
  rw [sentTo, same, ← sent, sound.sent_eq member]

theorem sentTo_of_spares
    {sink : SinkId}
    (spares : session.SparesSink sink)
    (call : Call) :
    session.sentTo sink call = [] := by
  have none : session.engine.queries.filter (·.sink = sink) = [] := by
    rw [List.filter_eq_nil_iff]
    simpa using spares.unused
  rw [sentTo, none, List.flatMap_nil]

/-- Two runs of the same batches agree, whatever other calls they make in
between.  A standing query that both have registered is told the same by every
batch that succeeds in both, and a sink that has no standing query is told
nothing. -/
theorem agrees_across_runs
    (config otherConfig : Config)
    (calls others : List Call)
    (batches : calls.filterMap Call.batch? = others.filterMap Call.batch?)
    (succeeds : (start config).succeedsAll calls = true)
    (succeedsToo : (start otherConfig).succeedsAll others = true) :
    let now := (start config).run calls
    let counterpart := (start otherConfig).run others
    now.AgreesWith counterpart ∧
      (∀ pattern sink image handle imageHandle,
        (start config).Registers calls pattern sink handle →
        (start otherConfig).Registers others pattern image imageHandle →
        now.OwnsSink handle sink → counterpart.OwnsSink imageHandle image →
        now.TellsAlike sink counterpart image) ∧
      ∀ sink image, now.SparesSink sink → counterpart.SparesSink image →
        now.TellsAlike sink counterpart image := by
  intro now counterpart
  have sound : now.Sound := (sound_start config).run calls
  have soundToo : counterpart.Sound := (sound_start otherConfig).run others
  obtain ⟨legible, spelled⟩ :=
    (sound_start config).spelled_run Graph.Legible.empty succeeds
  obtain ⟨legibleToo, spelledToo⟩ :=
    (sound_start otherConfig).spelled_run Graph.Legible.empty succeedsToo
  have agrees : now.services.graph.AgreesWith now.services.catalog
      counterpart.services.graph counterpart.services.catalog := by
    refine ⟨legible, legibleToo, spelled.trans ?_⟩
    rw [batches]
    exact spelledToo.symm
  refine ⟨⟨agrees, agrees.edgeId, Engine.rowSet_eq agrees,
      reports_eq sound soundToo agrees⟩,
    ?_, ?_⟩
  · intro pattern sink image handle imageHandle registers registersToo owns
      ownsToo changes
      applies appliesToo
    obtain ⟨valid, query, rfl, rfl, maintains⟩ :=
      (sound_start config).maintains_of_registers registers
    obtain ⟨_, other, rfl, rfl, maintainsToo⟩ :=
      (sound_start otherConfig).maintains_of_registers registersToo
    refine ⟨_, _, sound.collected_of_succeeds owns.memory applies,
      soundToo.collected_of_succeeds ownsToo.memory appliesToo, ?_⟩
    rw [sound.sentTo_of_owns maintains.1 owns,
      soundToo.sentTo_of_owns maintainsToo.1 ownsToo]
    exact perm_sentFor sound soundToo agrees valid maintains maintainsToo
      applies appliesToo
  · intro sink image spares sparesToo changes applies appliesToo
    refine ⟨_, _, sound.collected_of_succeeds spares.memory applies,
      soundToo.collected_of_succeeds sparesToo.memory appliesToo, ?_⟩
    rw [sentTo_of_spares spares, sentTo_of_spares sparesToo]

/-- A run of two batches, and one in which other queries are asked, explained,
registered and unsubscribed, so that the same names have other numbers. -/
theorem agrees_across_runs_with_other_numbers :
    let pattern : Pattern :=
      { declared := [⟨"a", none⟩, ⟨"b", some "person"⟩]
        relations := [⟨"a", "b", some "knows", none⟩]
        predicates := [⟨⟨"b", "age"⟩, .less, .literal (.int 9)⟩] }
    let more : Pattern :=
      { declared := [⟨"a", some "city"⟩, ⟨"b", some "person"⟩]
        relations := [⟨"a", "b", some "likes", none⟩, ⟨"a", "b", none, none⟩]
        predicates := [⟨⟨"a", "size"⟩, .less, .property ⟨"b", "age"⟩⟩] }
    let edge : NewEdge :=
      { source := ⟨1⟩, target := ⟨2⟩, type := some "knows",
        targetType := some "person"
        targetValues := .ofList [("age", Value.int 7)] }
    let batch : Call := .apply [.add edge, .add { edge with type := none }]
    let changes : List Change :=
      [.remove ⟨⟨1⟩, ⟨2⟩, some "knows"⟩, .add { edge with source := ⟨3⟩ }]
    let calls : List Call :=
      [.addSink (.memory []), .subscribeSink pattern 0, batch]
    let others : List Call :=
      [.rows more, .addSink (.memory []), .subscribeSink more 0,
        .addSink (.memory []), .subscribeSink pattern 1, .explain (.once more),
        batch, .unsubscribe 1, .rows pattern]
    let now := (start {}).run calls
    let counterpart := (start {}).run others
    now.services.catalog.types.number? "knows" ≠
        counterpart.services.catalog.types.number? "knows" ∧
      (start {}).succeedsAll calls = true ∧
      (start {}).succeedsAll others = true ∧
      (start {}).Registers calls pattern 0 1 ∧
      (start {}).Registers others pattern 1 2 ∧
      now.OwnsSink 1 0 ∧ counterpart.OwnsSink 2 1 ∧
      now.AgreesWith counterpart ∧ now.TellsAlike 0 counterpart 1 ∧
      now.succeeds (.apply changes) = true ∧
      counterpart.succeeds (.apply changes) = true ∧
      (now.sent 1 (.apply changes)).length = 2 := by
  intro pattern more edge batch changes calls others now counterpart
  have succeeds : (start {}).succeedsAll calls = true := by decide +kernel
  have succeedsToo : (start {}).succeedsAll others = true := by decide +kernel
  have registers : (start {}).Registers calls pattern 0 1 :=
    ⟨[.addSink (.memory [])], [batch], rfl, by decide +kernel, by simp [batch]⟩
  have registersToo : (start {}).Registers others pattern 1 2 :=
    ⟨[.rows more, .addSink (.memory []), .subscribeSink more 0,
        .addSink (.memory [])],
      [.explain (.once more), batch, .unsubscribe 1, .rows pattern], rfl,
      by decide +kernel, by simp [batch]⟩
  have owns : now.OwnsSink 1 0 := ⟨by decide +kernel, by decide +kernel⟩
  have ownsToo : counterpart.OwnsSink 2 1 :=
    ⟨by decide +kernel, by decide +kernel⟩
  obtain ⟨agrees, tells, _⟩ :=
    agrees_across_runs {} {} calls others rfl succeeds succeedsToo
  exact ⟨by decide +kernel, succeeds, succeedsToo, registers, registersToo,
    owns, ownsToo, agrees,
    tells pattern 0 1 1 2 registers registersToo owns ownsToo,
      by decide +kernel,
    by decide +kernel, by decide +kernel⟩

end Session

end DeltaGraph
