import DeltaGraph.Proofs.Execution.Safety
import DeltaGraph.Proofs.Plan.OfPattern

/-!
# Accepted patterns

Validation alone decides whether a pattern is planned.  The plans of an accepted
pattern run on every graph, and each of them reads every relation exactly once,
in the version that its query calls for.
-/

namespace DeltaGraph

/-- Planning fails exactly if validation does, with the same fault and without a
change of the catalog, and makes something good otherwise. -/
def Planning.Follows
    {α : Type}
    (planning : Planning α)
    (validated : Except PlanFault Unit)
    (Good : α → Prop) : Prop :=
  ∀ catalog : Catalog,
    match validated with
    | .error fault => planning catalog = (.error (.plan fault), catalog)
    | .ok () => ∃ made later, planning catalog = (.ok made, later) ∧ Good made

theorem Planning.follows_validate
    {α : Type}
    {planning : Planning α}
    {pattern : Pattern}
    {Good : α → Prop}
    (faulty : ∀ {fault}, pattern.fault? = some fault →
      ∀ catalog, planning catalog = (.error (.plan fault), catalog))
    (faultless : pattern.fault? = none →
      ∀ catalog, ∃ made later, planning catalog = (.ok made, later) ∧
        Good made) :
    Planning.Follows planning pattern.validate Good := by
  intro catalog
  unfold Pattern.validate
  cases found : pattern.fault? with
  | none => exact faultless found catalog
  | some fault => exact faulty found catalog

/-- Planners stop at the fault that validation reports.  What they plan for an
accepted pattern runs on every graph. -/
theorem Pattern.plans_run_safely (pattern : Pattern) :
    Planning.Follows (Plan.ofPattern pattern) pattern.validate Plan.RunsSafely ∧
      Planning.Follows (StandingPlan.ofPattern pattern) pattern.validate
        fun standing =>
          ∀ delta ∈ standing.deltas, delta.plan.RunsSafely := by
  constructor
  · refine Planning.follows_validate (fun found catalog => ?_)
      fun faultless catalog => ?_
    · rw [Plan.ofPattern,
        run_bind_error (PlanContext.run_ofPattern_fault found catalog)]
    · obtain ⟨plan, later, run, _, implements, _⟩ :=
        Plan.run_ofPattern faultless catalog
      exact ⟨plan, later, run, implements.wellFormed.runsSafely⟩
  · refine Planning.follows_validate (fun found catalog => ?_)
      fun faultless catalog => ?_
    · rw [StandingPlan.ofPattern,
        run_bind_error (PlanContext.run_ofPattern_fault found catalog)]
    · obtain ⟨standing, later, run, _, implements⟩ :=
        StandingPlan.run_ofPattern faultless catalog
      refine ⟨standing, later, run, fun delta member => ?_⟩
      obtain ⟨start, _, starts⟩ := exists_left_of_forall₂ implements member
      exact starts.plan.wellFormed.runsSafely

/-- Relations that are parallel, reversed and apart from the others, on a graph
that a batch is changing; and a pattern without relations. -/
theorem Pattern.plans_run_safely_in_batch :
    let pattern : Pattern :=
      { declared := [⟨"a", none⟩, ⟨"b", none⟩, ⟨"c", some "T"⟩, ⟨"d", none⟩]
        relations := [⟨"a", "b", some "K", some "r"⟩, ⟨"b", "a", none, none⟩,
          ⟨"a", "b", none, some "s"⟩, ⟨"d", "c", some "K", none⟩] }
    let graph :=
      (Graph.empty.stage (.addEdge ⟨⟨1⟩, ⟨2⟩, ⟨1⟩⟩ [])).commit.2.stage
      (.removeEdge ⟨⟨1⟩, ⟨2⟩, ⟨1⟩⟩)
    pattern.validate = .ok () ∧ graph.isPending = true ∧ graph.Reachable ∧
      (∃ plan later, Plan.ofPattern pattern {} = (.ok plan, later) ∧
        plan.RunsOn graph) ∧
      (∃ standing later,
        StandingPlan.ofPattern pattern {} = (.ok standing, later) ∧
        ∀ delta ∈ standing.deltas, delta.plan.RunsOn graph) ∧
      Plan.ofPattern {} {} = (.error (.plan .noRelations), {}) := by
  intro pattern graph
  have accepted : pattern.validate = .ok () := by decide +kernel
  have reachable : graph.Reachable := .stage _ (.commit (.stage _ .empty))
  obtain ⟨planned, standing⟩ := Pattern.plans_run_safely pattern
  have alone := planned {}
  have maintained := standing {}
  rw [accepted] at alone maintained
  obtain ⟨plan, later, run, runs⟩ := alone
  obtain ⟨deltas, last, runDeltas, runAll⟩ := maintained
  exact ⟨accepted, by decide +kernel, reachable,
    ⟨plan, later, run, runs reachable⟩,
    ⟨deltas, last, runDeltas,
      fun delta member => runAll delta member reachable⟩,
    (Pattern.plans_run_safely {}).1 {}⟩

/-! ## Reading every relation once -/

/-- The plan binds every variable, places the rule of every relation once, and
resolves and shows what the pattern declares, in order. -/
structure Plan.ReadsOnce (plan : Plan) (pattern : Pattern) (catalog : Catalog)
    (reading : Nat → Version) (first : Option Nat) : Prop where
  order : plan.order.Perm pattern.variableNames
  lookups : List.Forall₂ (fun entry lookup =>
    lookup.Renders plan.order catalog reading entry.1 entry.2)
      pattern.relations.zipIdx plan.lookups
  columns : List.Forall₂ (fun name column => plan.order[column]? = some name)
    pattern.variableNames plan.columns
  placed : ∃ placed, plan.Placement first placed

theorem Plan.Implements.readsOnce
    {plan : Plan}
    {pattern : Pattern}
    {catalog : Catalog}
    {reading : Nat → Version}
    (implements : plan.Implements pattern catalog reading)
    (different : pattern.variableNames.Nodup)
    {first : Option Nat}
    (placed : ∃ placed, plan.Placement first placed) :
    plan.ReadsOnce pattern catalog reading first where
  order :=
    (List.perm_ext_iff_of_nodup implements.different different).mpr
      implements.mem_order
  lookups := implements.lookups
  columns := implements.columns
  placed := placed

theorem Relation.differences_eq_flatMap
    (index : Nat)
    (relations : List Relation) :
    differences index relations =
      (List.range' index relations.length).flatMap fun relation =>
        [⟨relation, .additions⟩, ⟨relation, .removals⟩] := by
  induction relations generalizing index with
  | nil => rfl
  | cons first rest inductionHypothesis =>
      rw [differences, inductionHypothesis, List.length_cons, List.range'_succ,
        List.flatMap_cons]
      rfl

/-- The difference that a delta plan starts from. -/
def DeltaPlan.start (delta : DeltaPlan) : Difference :=
  ⟨delta.relation, delta.version⟩

theorem DeltaPlan.Implements.start_eq
    {delta : DeltaPlan}
    {pattern : Pattern}
    {catalog : Catalog}
    {start : Difference}
    (implements : delta.Implements pattern catalog start) :
    delta.start = start := by
  rw [DeltaPlan.start, implements.relation, implements.version]

theorem StandingPlan.Implements.starts
    {standing : StandingPlan}
    {pattern : Pattern}
    {catalog : Catalog}
    (implements : standing.Implements pattern catalog) :
    standing.deltas.map DeltaPlan.start =
      Relation.differences 0 pattern.relations := by
  unfold StandingPlan.Implements at implements
  generalize Relation.differences 0 pattern.relations = starts,
    standing.deltas = deltas
    at implements ⊢
  induction implements with
  | nil => rfl
  | cons first _ inductionHypothesis =>
      rw [List.map_cons, first.start_eq, inductionHypothesis]

/-- The delta plans of an accepted pattern come in pairs, one pair for each
relation, and every plan reads every relation once: the relation of the
difference from the additions or removals, the earlier ones as the batch leaves
them and the later ones as it found them.  The plan for the rows reads all of
them from the committed graph. -/
theorem StandingPlan.reads_every_relation_once
    {pattern : Pattern}
    (accepted : pattern.validate = .ok ())
    (different : pattern.variableNames.Nodup)
    (catalog : Catalog) :
    (∃ standing later,
      StandingPlan.ofPattern pattern catalog = (.ok standing, later) ∧
      standing.deltas.map DeltaPlan.start =
        ((List.range pattern.relations.length).flatMap fun relation =>
          [⟨relation, .additions⟩, ⟨relation, .removals⟩]) ∧
      ∀ delta ∈ standing.deltas, ∃ relation rest,
        pattern.relations[delta.relation]? = some relation ∧
        delta.plan.order = relation.source :: relation.target :: rest ∧
        delta.plan.ReadsOnce pattern later delta.start.reading
          (some delta.relation)) ∧
    ∃ plan later, Plan.ofPattern pattern catalog = (.ok plan, later) ∧
      plan.ReadsOnce pattern later (fun _ => .permanent) none := by
  have faultless := Pattern.fault?_of_validate accepted
  constructor
  · obtain ⟨standing, later, run, _, implements⟩ :=
      StandingPlan.run_ofPattern faultless catalog
    refine ⟨standing, later, run, ?_, fun delta member => ?_⟩
    · rw [implements.starts, Relation.differences_eq_flatMap,
        List.range_eq_range']
    · obtain ⟨start, listed, starts⟩ := exists_left_of_forall₂ implements member
      have below : start.relation < pattern.relations.length := by
        simpa using (Relation.bounds_of_mem_differences listed).2
      obtain ⟨rest, order⟩ := starts.ends (List.getElem?_eq_getElem below)
      rw [starts.start_eq, starts.relation]
      exact ⟨_, rest, List.getElem?_eq_getElem below, order,
        starts.plan.readsOnce different starts.placed⟩
  · obtain ⟨plan, later, run, _, implements, _⟩ :=
      Plan.run_ofPattern faultless catalog
    exact ⟨plan, later, run,
      implements.readsOnce different
        (Plan.placement_of_ofPattern faultless run)⟩

/-- Two variables that three relations join, one of them backwards. -/
theorem StandingPlan.reads_parallel_relations_once :
    let pattern : Pattern :=
      { declared := [⟨"a", none⟩, ⟨"b", none⟩]
        relations := [⟨"a", "b", some "K", none⟩, ⟨"b", "a", none, none⟩,
          ⟨"a", "b", none, some "r"⟩] }
    pattern.validate = .ok () ∧ pattern.variableNames.Nodup ∧
      ∃ standing later,
        StandingPlan.ofPattern pattern {} = (.ok standing, later) ∧
        standing.deltas.map DeltaPlan.start =
          [⟨0, .additions⟩, ⟨0, .removals⟩, ⟨1, .additions⟩, ⟨1, .removals⟩,
            ⟨2, .additions⟩, ⟨2, .removals⟩] ∧
        ∀ delta ∈ standing.deltas,
          delta.plan.ReadsOnce pattern later delta.start.reading
            (some delta.relation) := by
  intro pattern
  have accepted : pattern.validate = .ok () := by decide +kernel
  have different : pattern.variableNames.Nodup := by decide +kernel
  obtain ⟨⟨standing, later, run, starts, reads⟩, _⟩ :=
    StandingPlan.reads_every_relation_once accepted different {}
  refine ⟨accepted, different, standing, later, run, starts,
    fun delta member => ?_⟩
  obtain ⟨_, _, _, _, once⟩ := reads delta member
  exact once

end DeltaGraph
