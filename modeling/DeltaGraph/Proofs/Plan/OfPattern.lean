import DeltaGraph.Plan.Standing
import DeltaGraph.Proofs.Plan.Placement

/-!
# The plans of valid patterns

Planning a valid pattern succeeds.  The plan for rows reads every relation from
the committed graph.  The delta plans come in pairs, one pair for each relation:
the relation itself is read from the additions and then from the removals, those
before it as the batch leaves them, and those after it as the batch found them.
-/

namespace DeltaGraph

/-- The version in which a delta plan reads a relation. -/
def Difference.reading (start : Difference) (index : Nat) : Version :=
  if index < start.relation then .merged
  else if index = start.relation then start.version
  else .permanent

/-- The differences that delta plans start from, two for each relation. -/
def Relation.differences (index : Nat) : List Relation → List Difference
  | [] => []
  | _ :: rest =>
      ⟨index, .additions⟩ :: ⟨index, .removals⟩ :: differences (index + 1) rest

/-- The differences of a list of relations start at these relations. -/
theorem Relation.bounds_of_mem_differences
    {index : Nat}
    {relations : List Relation}
    {start : Difference}
    (member : start ∈ differences index relations) :
    index ≤ start.relation ∧ start.relation < index + relations.length := by
  induction relations generalizing index with
  | nil => cases member
  | cons relation rest inductionHypothesis =>
      rw [List.length_cons]
      rcases List.mem_cons.mp member with rfl | member
      · exact ⟨Nat.le_refl index, by simp⟩
      · rcases List.mem_cons.mp member with rfl | member
        · exact ⟨Nat.le_refl index, by simp⟩
        · have later := inductionHypothesis member
          omega

/-- The delta plan starts from the difference and implements the pattern. -/
structure DeltaPlan.Implements
    (delta : DeltaPlan)
    (pattern : Pattern)
    (catalog : Catalog)
    (start : Difference) : Prop where
  relation : delta.relation = start.relation
  version : delta.version = start.version
  plan : delta.plan.Implements pattern catalog start.reading
  startVersion : delta.plan.startVersion = start.version
  ends {relation : Relation}
    (found : pattern.relations[start.relation]? = some relation) :
    ∃ rest, delta.plan.order = relation.source :: relation.target :: rest
  placed : ∃ placed, delta.plan.Placement (some start.relation) placed

/-- The delta plans are those of the relations of the pattern. -/
def StandingPlan.Implements
    (plan : StandingPlan)
    (pattern : Pattern)
    (catalog : Catalog) :
    Prop :=
  List.Forall₂ (fun start delta => delta.Implements pattern catalog start)
    (Relation.differences 0 pattern.relations) plan.deltas

theorem DeltaPlan.Implements.mono
    {catalog later : Catalog}
    (grows : catalog.Extends later)
    {delta : DeltaPlan}
    {pattern : Pattern}
    {start : Difference}
    (implements : delta.Implements pattern catalog start) :
    delta.Implements pattern later start :=
  { implements with plan := implements.plan.mono grows }

/-- A standing plan that implements a pattern goes on doing so while the catalog
grows. -/
theorem StandingPlan.Implements.mono
    {catalog later : Catalog}
    (grows : catalog.Extends later)
    {plan : StandingPlan}
    {pattern : Pattern}
    (implements : plan.Implements pattern catalog) :
    plan.Implements pattern later :=
  List.Forall₂.imp (fun _ _ delta => delta.mono grows) implements

/-- A plan all of whose relations are read in one version starts from it. -/
theorem Plan.WellFormed.startVersion
    {plan : Plan}
    (wellFormed : plan.WellFormed)
    {version : Version}
    (constant : ∀ lookup ∈ plan.lookups, lookup.version = version) :
    plan.startVersion = version := by
  obtain ⟨rule, others, rest, stages⟩ := wellFormed.start
  have first : plan.stages[0]? = some (rule :: others) := by rw [stages]; rfl
  obtain ⟨_, lookup, member, reads⟩ := wellFormed.rules first (.head _)
  rw [Plan.startVersion, stages]
  exact reads.version_eq.trans (constant lookup member)

namespace PlanContext

/-- Preparing a pattern without a fault succeeds, extends the catalog, and gives
the context of the pattern. -/
theorem run_ofPattern {pattern : Pattern} (faultless : pattern.fault? = none)
    (catalog : Catalog) :
    ∃ context later,
      PlanContext.ofPattern pattern catalog = (.ok context, later) ∧
      catalog.Extends later ∧ context.Of pattern later := by
  obtain ⟨types, later, run, grows, numbered⟩ :=
    Catalog.run_mapM pattern.relations
    (fun relation => liftM (Catalog.internType? relation.type))
    (fun catalog relation type => catalog.Numbers relation.type type)
    (fun grows numbers => numbers.mono grows)
    (fun relation _ catalog => by
      obtain ⟨grows, numbers⟩ := Catalog.internType?_spec relation.type catalog
      exact ⟨_, _, rfl, grows, numbers⟩)
    catalog
  refine ⟨⟨pattern, .ofPattern pattern, pattern.relationNames, types⟩, later,
    ?_, grows, rfl, rfl, rfl, numbered⟩
  rw [PlanContext.ofPattern, faultless]
  exact (run_bind_ok run).trans rfl

/-- Preparing a pattern with a fault fails with it and leaves the catalog as it
was. -/
theorem run_ofPattern_fault {pattern : Pattern} {fault : PlanFault}
    (found : pattern.fault? = some fault) (catalog : Catalog) :
    PlanContext.ofPattern pattern catalog =
      (.error (.plan fault), catalog) := by
  rw [PlanContext.ofPattern, found]
  rfl

/-- The context of a pattern is about this pattern. -/
theorem returns_ofPattern (pattern : Pattern) :
    StepReturns (fun context : PlanContext =>
        context.pattern = pattern ∧ context.incidence = .ofPattern pattern)
      (PlanContext.ofPattern pattern) := by
  unfold PlanContext.ofPattern
  split
  · rintro _ _ _ ⟨⟩
  · exact .bind fun _ => .pure ⟨rfl, rfl⟩

theorem orderFor_order {pattern : Pattern} (valid : pattern.Valid) :
    OrderFor pattern none (Incidence.ofPattern pattern).order := by
  obtain ⟨different, complete⟩ :=
    (Incidence.ofPattern pattern).orderAfter_complete [] List.nodup_nil
      (by simp)
  obtain ⟨first, second, rest, index, split, joins⟩ :=
    Incidence.order_start valid
  obtain ⟨relation, found, ends⟩ := Incidence.mem_relationsJoining.mp joins
  refine ⟨different, fun name => ?_, first, second, rest, index, relation,
    split, found, ends, ?_⟩
  · exact (complete name).trans (Incidence.mem_names_ofPattern valid)
  · intro start given
    cases given

theorem orderFor_orderAfter
    {pattern : Pattern}
    (valid : pattern.Valid)
    (start : Difference)
    {relation : Relation}
    (found : pattern.relations[start.relation]? = some relation) :
    OrderFor pattern (some start)
      ((Incidence.ofPattern pattern).orderAfter
        [relation.source, relation.target]) := by
  have used := List.mem_of_getElem? found
  have ends := valid.ends used
  obtain ⟨different, complete⟩ :=
    (Incidence.ofPattern pattern).orderAfter_complete
      [relation.source, relation.target]
      (by simpa using ends) (by
        intro name member
        rw [Incidence.mem_names_ofPattern valid]
        simp only [List.mem_cons, List.not_mem_nil, or_false] at member
        rcases member with rfl | rfl
        · exact valid.source used
        · exact valid.target used)
  obtain ⟨rest, split⟩ :=
    (Incidence.ofPattern pattern).prefix_orderAfter
      [relation.source, relation.target]
  refine ⟨different, fun name => ?_, relation.source, relation.target, rest,
    start.relation, relation, split.symm, found, .inl ⟨rfl, rfl⟩, ?_⟩
  · exact (complete name).trans (Incidence.mem_names_ofPattern valid)
  · rintro _ ⟨⟩
    exact ⟨rfl, rfl⟩

end PlanContext

theorem Plan.reads_permanent (pattern : Pattern) :
    PlanContext.Reads pattern none (fun _ => .ok .permanent)
      (fun _ => .permanent) :=
  ⟨fun _ => rfl⟩

/-- Planning a pattern without a fault succeeds, with a plan that implements it
on the permanent graph. -/
theorem Plan.run_ofPattern_lays
    {pattern : Pattern}
    (faultless : pattern.fault? = none)
    (catalog : Catalog) :
    ∃ (context : PlanContext) (plan : Plan) (later : Catalog),
      Plan.ofPattern pattern catalog = (.ok plan, later) ∧
        catalog.Extends later ∧
      plan.Implements pattern later (fun _ => .permanent) ∧
      context.Of pattern later ∧
      context.Lays pattern later none (fun _ => .permanent)
        (Incidence.ofPattern pattern).order
        plan := by
  have valid := Pattern.valid_of_fault? faultless
  obtain ⟨context, middle, run, grows, of⟩ :=
    PlanContext.run_ofPattern faultless catalog
  obtain ⟨plan, later, runPlan, growsMore, implements, _, lays⟩ :=
    PlanContext.run_plan of valid
    (PlanContext.orderFor_order valid) (Plan.reads_permanent pattern)
  refine ⟨context, plan, later, ?_, grows.trans growsMore, implements,
    of.mono growsMore, lays⟩
  rw [Plan.ofPattern]
  refine (run_bind_ok run).trans ?_
  rw [of.incidence]
  exact runPlan

/-- The plan for the rows of a valid pattern implements it on the committed
graph. -/
theorem Plan.run_ofPattern
    {pattern : Pattern}
    (faultless : pattern.fault? = none)
    (catalog : Catalog) :
    ∃ plan later, Plan.ofPattern pattern catalog = (.ok plan, later) ∧
      catalog.Extends later ∧
      plan.Implements pattern later (fun _ => .permanent) ∧
      plan.rowKind = .matched := by
  obtain ⟨_, plan, later, run, grows, implements, _⟩ :=
    Plan.run_ofPattern_lays faultless catalog
  refine ⟨plan, later, run, grows, implements, ?_⟩
  have committed : ∀ lookup ∈ plan.lookups, lookup.version = .permanent := by
    intro lookup member
    obtain ⟨_, _, renders⟩ := exists_left_of_forall₂ implements.lookups member
    exact renders.version
  rw [Plan.rowKind, implements.wellFormed.startVersion committed]

/-- The order in which a plan binds the variables does not depend on the
catalog. -/
theorem Plan.order_of_ofPattern
    {pattern : Pattern}
    (faultless : pattern.fault? = none)
    {catalog later : Catalog}
    {plan : Plan}
    (planned : Plan.ofPattern pattern catalog = (.ok plan, later)) :
    plan.order = (Incidence.ofPattern pattern).order := by
  obtain ⟨_, _, _, again, _, _, _, lays⟩ :=
    Plan.run_ofPattern_lays faultless catalog
  rw [planned] at again
  cases again
  exact lays.order

/-- The plan for the rows places every relation once. -/
theorem Plan.placement_of_ofPattern
    {pattern : Pattern}
    (faultless : pattern.fault? = none)
    {catalog later : Catalog}
    {plan : Plan}
    (planned : Plan.ofPattern pattern catalog = (.ok plan, later)) :
    ∃ placed, plan.Placement none placed := by
  have valid := Pattern.valid_of_fault? faultless
  obtain ⟨_, _, _, again, _, _, of, lays⟩ :=
    Plan.run_ofPattern_lays faultless catalog
  rw [planned] at again
  cases again
  exact ⟨_, PlanContext.placement of valid (PlanContext.orderFor_order valid)
    (Plan.reads_permanent pattern) lays⟩

/-- Planning adds names at most, also if it fails. -/
theorem Plan.leads_ofPattern (pattern : Pattern) :
    StepLeads Catalog.Extends (Plan.ofPattern pattern) := by
  intro catalog
  cases fault : pattern.fault? with
  | none =>
      obtain ⟨_, _, run, grows, _⟩ := Plan.run_ofPattern fault catalog
      rw [run]
      exact grows
  | some found =>
      rw [Plan.ofPattern,
        run_bind_error (PlanContext.run_ofPattern_fault fault catalog)]
      exact .refl catalog

/-! ## Delta plans -/

/-- The relations before an index are read from the merged graph, and the later
ones from the committed graph. -/
structure RelationVersions.At
    (versions : RelationVersions)
    (index count : Nat) : Prop where
  merged (relation : Nat) : relation ∈ versions.merged ↔ relation < index
  permanent (relation : Nat) :
    relation ∈ versions.permanent ↔ index ≤ relation ∧ relation < count

namespace RelationVersions

theorem at_initial (count : Nat) :
    (RelationVersions.initial count).At 0 count where
  merged relation := by simp [initial]
  permanent relation := by simp [initial, Std.ExtTreeSet.mem_ofList]

/-- After its delta plans a relation is read from the merged graph. -/
theorem At.next {versions : RelationVersions} {index count : Nat}
    (before : versions.At index count) :
    ((versions.release index).merge index).At (index + 1) count where
  merged relation := by
    simp only [release, merge, Std.ExtTreeSet.mem_insert, before.merged,
      Std.LawfulEqOrd.compare_eq_iff_eq]
    omega
  permanent relation := by
    simp only [release, merge, Std.ExtTreeSet.mem_erase, before.permanent,
      ne_eq, Std.LawfulEqOrd.compare_eq_iff_eq]
    omega

/-- During its delta plans a relation is read from no version but that of the
difference. -/
theorem At.reads
    {versions : RelationVersions}
    {pattern : Pattern}
    (start : Difference)
    (before : versions.At start.relation pattern.relations.length) :
    PlanContext.Reads pattern (some start)
      (versions.release start.relation).readAs
      start.reading := by
  refine ⟨fun {index relation} found => ?_⟩
  have below := (List.getElem?_eq_some_iff.mp found).1
  simp only [PlanContext.resolvedVersion, readAs, release,
    Std.ExtTreeSet.contains_iff_mem, Std.ExtTreeSet.mem_erase, before.merged,
    before.permanent, Difference.reading, ne_eq,
    Std.LawfulEqOrd.compare_eq_iff_eq]
  by_cases same : start.relation = index
  · simp [same]
  · by_cases earlier : index < start.relation
    · simp [same, earlier]
    · have later : start.relation ≤ index := by omega
      simp [same, earlier, later, below, Ne.symm same]

end RelationVersions

namespace PlanContext

/-- The plan of a difference, read in the versions of a delta plan, implements
the pattern from the difference. -/
theorem run_delta
    {context : PlanContext}
    {pattern : Pattern}
    {catalog : Catalog}
    (start : Difference)
    (of : context.Of pattern catalog)
    (valid : pattern.Valid)
    {versions : RelationVersions}
    (before : versions.At start.relation pattern.relations.length)
    {relation : Relation}
    (found : pattern.relations[start.relation]? = some relation) :
    ∃ plan later,
      context.plan
        (context.incidence.orderAfter [relation.source, relation.target])
        (some start) (versions.release start.relation).readAs catalog =
          (.ok plan, later) ∧
      catalog.Extends later ∧
      (DeltaPlan.mk start.relation start.version plan).Implements pattern later
        start := by
  have forOrder := orderFor_orderAfter valid start found
  have reads := RelationVersions.At.reads start before
  rw [of.incidence]
  obtain ⟨plan, later, run, grows, implements, started, lays⟩ :=
    run_plan of valid forOrder reads
  have placed := placement (of.mono grows) valid forOrder reads lays
  refine ⟨plan, later, run, grows, rfl, rfl, implements, started _ rfl, ?_, _,
    placed⟩
  intro other otherFound
  rw [found] at otherFound
  cases otherFound
  obtain ⟨rest, split⟩ :=
    (Incidence.ofPattern pattern).prefix_orderAfter
      [relation.source, relation.target]
  exact ⟨rest, lays.order.trans split.symm⟩

/-- One relation of a valid pattern gets its delta plans, each of which
implements the pattern from that relation. -/
theorem run_deltasOf
    {context : PlanContext}
    {pattern : Pattern}
    {catalog : Catalog}
    (of : context.Of pattern catalog)
    (valid : pattern.Valid)
    {versions : RelationVersions}
    {index : Nat}
    (before : versions.At index pattern.relations.length)
    {relation : Relation}
    (found : pattern.relations[index]? = some relation) :
    ∃ deltas later,
      context.deltasOf (versions.release index) index relation catalog =
        (.ok deltas, later) ∧ catalog.Extends later ∧
      List.Forall₂
        (fun version delta =>
          DeltaPlan.Implements delta pattern later ⟨index, version⟩)
        [.additions, .removals] deltas := by
  obtain ⟨first, middle, runFirst, grows, implements⟩ :=
    run_delta ⟨index, .additions⟩ of valid before found
  obtain ⟨second, later, runSecond, growsMore, implementsSecond⟩ :=
    run_delta ⟨index, .removals⟩ (of.mono grows) valid before found
  refine ⟨[⟨index, .additions, first⟩, ⟨index, .removals, second⟩], later, ?_,
    grows.trans growsMore,
    .cons (implements.mono growsMore) (.cons implementsSecond .nil)⟩
  let action (version : Version) : Planning DeltaPlan := do
    let plan ←
      context.plan
        (context.incidence.orderAfter [relation.source, relation.target])
      (some ⟨index, version⟩) (versions.release index).readAs
    return { relation := index, version, plan }
  have additions :
      action .additions catalog = (.ok ⟨index, .additions, first⟩, middle) :=
    (run_bind_ok runFirst).trans rfl
  have removals :
      action .removals middle = (.ok ⟨index, .removals, second⟩, later) :=
    (run_bind_ok runSecond).trans rfl
  change ([Version.additions, .removals].mapM action) catalog = _
  rw [List.mapM_cons, List.mapM_cons, List.mapM_nil, run_bind_ok additions]
  exact (run_bind_ok ((run_bind_ok removals).trans rfl)).trans rfl

/-- The relations from an index on get their delta plans, in order, while the
versions move along. -/
theorem run_deltasFrom
    {context : PlanContext}
    {pattern : Pattern}
    {catalog : Catalog}
    (of : context.Of pattern catalog)
    (valid : pattern.Valid)
    {versions : RelationVersions}
    {index : Nat}
    (before : versions.At index pattern.relations.length)
    (relations : List Relation)
    (rest : pattern.relations.drop index = relations) :
    ∃ deltas later,
      context.deltasFrom versions index relations catalog =
        (.ok deltas, later) ∧
      catalog.Extends later ∧
      List.Forall₂
        (fun start delta => DeltaPlan.Implements delta pattern later start)
        (Relation.differences index relations) deltas := by
  induction relations generalizing catalog versions index with
  | nil => exact ⟨[], catalog, rfl, .refl catalog, .nil⟩
  | cons relation relations inductionHypothesis =>
      have found : pattern.relations[index]? = some relation := by
        rw [← List.head?_drop, rest]
        rfl
      have restLater : pattern.relations.drop (index + 1) = relations := by
        rw [← List.tail_drop, rest]
        rfl
      obtain ⟨deltas, middle, run, grows, implement⟩ :=
        run_deltasOf of valid before found
      obtain ⟨others, later, runLater, growsMore, implementLater⟩ :=
        inductionHypothesis (of.mono grows) before.next restLater
      refine ⟨deltas ++ others, later, ?_, grows.trans growsMore, ?_⟩
      · rw [deltasFrom]
        refine (run_bind_ok run).trans ?_
        exact (run_bind_ok runLater).trans rfl
      · cases implement with
        | cons first implement =>
            cases implement with
            | cons second implement =>
                cases implement with
                | nil =>
                    exact .cons (first.mono growsMore)
                      (.cons (second.mono growsMore)
                        implementLater)

end PlanContext

/-- The delta plans of a valid pattern implement it. -/
theorem StandingPlan.run_ofPattern
    {pattern : Pattern}
    (faultless : pattern.fault? = none)
    (catalog : Catalog) :
    ∃ plan later, StandingPlan.ofPattern pattern catalog = (.ok plan, later) ∧
      catalog.Extends later ∧ plan.Implements pattern later := by
  have valid := Pattern.valid_of_fault? faultless
  obtain ⟨context, middle, run, grows, of⟩ :=
    PlanContext.run_ofPattern faultless catalog
  obtain ⟨deltas, later, runDeltas, growsMore, implement⟩ :=
    PlanContext.run_deltasFrom of valid
    (RelationVersions.at_initial pattern.relations.length) pattern.relations rfl
  refine ⟨⟨deltas, context.relationNames, pattern.variableNames⟩, later, ?_,
    grows.trans growsMore, implement⟩
  rw [StandingPlan.ofPattern]
  refine (run_bind_ok run).trans ?_
  exact (run_bind_ok runDeltas).trans rfl

/-- Only a pattern that breaks no rule has delta plans. -/
theorem StandingPlan.fault?_of_ofPattern
    {pattern : Pattern}
    {catalog later : Catalog}
    {plan : StandingPlan}
    (run : StandingPlan.ofPattern pattern catalog = (.ok plan, later)) :
    pattern.fault? = none := by
  cases fault : pattern.fault? with
  | none => rfl
  | some found =>
      have stopped := PlanContext.run_ofPattern_fault fault catalog
      rw [StandingPlan.ofPattern, run_bind_error stopped] at run
      cases run

/-- A standing plan that planning returns implements its pattern. -/
theorem StandingPlan.implements_of_ofPattern
    {pattern : Pattern}
    {catalog later : Catalog}
    {plan : StandingPlan}
    (run : StandingPlan.ofPattern pattern catalog = (.ok plan, later)) :
    plan.Implements pattern later := by
  obtain ⟨found, reached, again, _, implements⟩ :=
    StandingPlan.run_ofPattern (StandingPlan.fault?_of_ofPattern run) catalog
  rw [run] at again
  cases again
  exact implements

theorem StandingPlan.leads_ofPattern (pattern : Pattern) :
    StepLeads Catalog.Extends (StandingPlan.ofPattern pattern) := by
  intro catalog
  cases fault : pattern.fault? with
  | none =>
      obtain ⟨_, _, run, grows, _⟩ := StandingPlan.run_ofPattern fault catalog
      rw [run]
      exact grows
  | some found =>
      rw [StandingPlan.ofPattern,
        run_bind_error (PlanContext.run_ofPattern_fault fault catalog)]
      exact .refl catalog

end DeltaGraph
