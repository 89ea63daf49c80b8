import DeltaGraph.Proofs.Homomorphism
import DeltaGraph.Proofs.Pattern.Names

/-!
# Types of variables that are declared again

Planning asks for the type of a variable by its name, and finds the first
declaration of it.  So the vertices of a row have the types that are declared
first for their variables, and a type that is declared later changes no plan.
In a pattern that is made of declarations every variable is declared once, and
no type is lost.
-/

namespace DeltaGraph

namespace Pattern

/-- The pattern in which all declarations of a variable give the type of the
first one. -/
def withFirstTypes (pattern : Pattern) : Pattern :=
  { pattern with
    declared := pattern.declared.map fun declared =>
      ⟨declared.name, pattern.typeOf? declared.name⟩ }

variable (pattern : Pattern)

@[simp] theorem variableNames_withFirstTypes :
    pattern.withFirstTypes.variableNames = pattern.variableNames := by
  simp [variableNames, withFirstTypes, Function.comp_def]

@[simp] theorem typeOf?_withFirstTypes (name : String) :
    pattern.withFirstTypes.typeOf? name = pattern.typeOf? name := by
  have found : pattern.withFirstTypes.find? name =
      (pattern.find? name).map fun declared =>
        ⟨declared.name, pattern.typeOf? declared.name⟩ :=
    List.find?_map
  rw [typeOf?, found]
  cases known : pattern.find? name with
  | none => rw [typeOf?, known, Option.map_none]
  | some first =>
      have same : first.name = name := by simpa using List.find?_some known
      rw [Option.map_some, Option.bind_some, same]

theorem incidence_withFirstTypes :
    Incidence.ofPattern pattern.withFirstTypes =
      Incidence.ofPattern pattern := by
  rw [Incidence.ofPattern, variableNames_withFirstTypes]
  rfl

/-- The rules do not ask for the types of variables. -/
theorem fault?_withFirstTypes :
    pattern.withFirstTypes.fault? = pattern.fault? := by
  have isolated : pattern.withFirstTypes.isolatedVariable?.map
        (fun isolated => PlanFault.isolatedVariable isolated.name) =
      pattern.isolatedVariable?.map fun isolated =>
        .isolatedVariable isolated.name := by
    rw [isolatedVariable?, withFirstTypes, List.find?_map, Option.map_map]
    rfl
  have unknown :
      pattern.withFirstTypes.unknownElement? = pattern.unknownElement? := by
    simp only [unknownElement?, variableNames_withFirstTypes]
    rfl
  rw [fault?, fault?, isolated, unknown, variableNames_withFirstTypes]
  rfl

end Pattern

namespace PlanContext

variable (context : PlanContext)

/-- The context with the types that are declared first. -/
def withFirstTypes : PlanContext :=
  { context with pattern := context.pattern.withFirstTypes }

theorem ofPattern_withFirstTypes (pattern : Pattern) :
    PlanContext.ofPattern pattern.withFirstTypes =
      withFirstTypes <$> PlanContext.ofPattern pattern := by
  rw [PlanContext.ofPattern, PlanContext.ofPattern,
    pattern.fault?_withFirstTypes]
  cases pattern.fault? with
  | some fault => rfl
  | none =>
      simp only [map_bind, map_pure, withFirstTypes,
        pattern.incidence_withFirstTypes]
      rfl

/-- A plan depends on the types that are declared first. -/
theorem plan_withFirstTypes
    (order : List String)
    (difference : Option Difference)
    (readAs : Nat → Except Error Version) :
    context.withFirstTypes.plan order difference readAs =
      context.plan order difference readAs := by
  have names :
      context.withFirstTypes.pattern.variableNames =
        context.pattern.variableNames :=
    context.pattern.variableNames_withFirstTypes
  have types :
      context.withFirstTypes.pattern.typeOf? = context.pattern.typeOf? :=
    funext context.pattern.typeOf?_withFirstTypes
  have stages :
      context.withFirstTypes.stages difference readAs (order.take 1)
        (order.drop 1) =
        context.stages difference readAs (order.take 1) (order.drop 1) :=
    context.stages_of_relations
      (rfl : context.pattern.withFirstTypes.relations = _) ..
  rw [plan, plan, stages, names, types]
  rfl

end PlanContext

/-- A type of a variable that is declared later changes no plan. -/
theorem Plan.ofPattern_withFirstTypes (pattern : Pattern) :
    Plan.ofPattern pattern.withFirstTypes = Plan.ofPattern pattern := by
  rw [Plan.ofPattern, Plan.ofPattern, PlanContext.ofPattern_withFirstTypes,
    bind_map_left]
  simp only [PlanContext.plan_withFirstTypes]
  rfl

/-- In every row of a valid pattern, wherever a variable is declared, its vertex
has the type of the first declaration.  A type that is declared later changes no
plan.  In a pattern that is made of declarations every declaration is the first
one of its name. -/
theorem Plan.enforces_first_types
    {pattern : Pattern}
    (valid : pattern.validate = .ok ())
    {graph : Graph}
    (reachable : graph.Reachable)
    (catalog : Catalog)
    (counters : Counters) :
    (∃ plan later counts events finished,
      Plan.ofPattern pattern catalog = (.ok plan, later) ∧
      plan.collectEvents graph counters = (.ok counts, events, finished) ∧
      ∀ event ∈ events, ∃ assigned,
        event.row.vertices = pattern.variableNames.map assigned ∧
        ∀ declared ∈ pattern.declared, ∀ type,
          pattern.typeOf? declared.name = some type →
          graph.HasNamedType later (assigned declared.name) type) ∧
    Plan.ofPattern pattern.withFirstTypes = Plan.ofPattern pattern ∧
    ∀ declarations, Pattern.ofDeclarations declarations = .ok pattern →
      ∀ declared ∈ pattern.declared,
        pattern.typeOf? declared.name = declared.type := by
  refine ⟨?_, Plan.ofPattern_withFirstTypes pattern,
    fun declarations built declared member =>
      Pattern.typeOf?_of_nodup (Pattern.of_ofDeclarations built).1 member⟩
  have faultless := Pattern.fault?_of_validate valid
  have sound := reachable.sound
  obtain ⟨plan, later, planned, _, implements, _⟩ :=
    Plan.run_ofPattern faultless catalog
  obtain ⟨counts, finished, collected, _⟩ :=
    implements.wellFormed.collectEvents_eq sound counters
  refine ⟨plan, later, counts, plan.events graph, finished, planned, collected,
    ?_⟩
  intro event member
  obtain ⟨row, found, rfl⟩ := List.mem_map.mp member
  obtain ⟨assigned, vertices, matching⟩ :=
    (implements.mem_rows_iff (Pattern.valid_of_fault? faultless) sound).mp found
  exact ⟨assigned, vertices, fun declared entry =>
    matching.types declared.name (List.mem_map_of_mem entry)⟩

/-- A variable that is declared twice with one type. -/
theorem Plan.enforces_first_types_declared_twice :
    let pattern : Pattern :=
      { declared := [⟨"a", some "person"⟩, ⟨"b", none⟩, ⟨"a", some "person"⟩]
        relations := [⟨"a", "b", none, none⟩] }
    let graph := ((Graph.empty.stage (.putVertex ⟨1⟩ (some ⟨1⟩) [])).stage
      (.addEdge ⟨⟨1⟩, ⟨2⟩, .default⟩ [])).commit.2
    pattern.validate = .ok () ∧ graph.Reachable ∧
      (∀ declared ∈ pattern.declared,
        pattern.typeOf? declared.name = declared.type) ∧
      ∃ plan later counts events finished,
        Plan.ofPattern pattern Catalog.empty = (.ok plan, later) ∧
        plan.collectEvents graph {} = (.ok counts, events, finished) ∧
        ∀ event ∈ events, ∃ assigned,
          event.row.vertices = pattern.variableNames.map assigned ∧
          ∀ declared ∈ pattern.declared, ∀ type,
            pattern.typeOf? declared.name = some type →
            graph.HasNamedType later (assigned declared.name) type := by
  intro pattern graph
  have valid : pattern.validate = .ok () := by decide +kernel
  have reachable : graph.Reachable := .commit (.stage _ (.stage _ .empty))
  exact ⟨valid, reachable, by decide +kernel,
    (Plan.enforces_first_types valid reachable Catalog.empty {}).1⟩

/-- A variable that is declared again with another type keeps the first one. -/
theorem Plan.not_enforces_later_type :
    let pattern : Pattern :=
      { declared := [⟨"a", some "person"⟩, ⟨"a", some "city"⟩, ⟨"b", none⟩]
        relations := [⟨"a", "b", none, none⟩] }
    let graph := ((Graph.empty.stage (.putVertex ⟨1⟩ (some ⟨1⟩) [])).stage
      (.addEdge ⟨⟨1⟩, ⟨2⟩, .default⟩ [])).commit.2
    pattern.validate = .ok () ∧ graph.Reachable ∧
      ∃ plan later counts finished,
        Plan.ofPattern pattern Catalog.empty = (.ok plan, later) ∧
        plan.collectEvents graph {} =
          (.ok counts, [⟨.matched, ⟨[⟨1⟩, ⟨1⟩, ⟨2⟩], [⟨0⟩]⟩⟩], finished) ∧
        ¬ graph.HasNamedType later ⟨1⟩ "city" := by
  intro pattern graph
  let plan : Plan :=
    { order := ["a", "b"]
      types := [some ⟨1⟩, none]
      stages := [[⟨0, .forward, .permanent, none⟩]]
      lookups := [⟨"0_anon_rel", 0, 1, none, .permanent⟩]
      conditions := []
      columns := [0, 0, 1] }
  have valid : pattern.validate = .ok () := by decide +kernel
  have reachable : graph.Reachable := .commit (.stage _ (.stage _ .empty))
  have planned : (Plan.ofPattern pattern Catalog.empty).1 = .ok plan := by
    decide +kernel
  have unknown :
      (Plan.ofPattern pattern Catalog.empty).2.types.number? "city" = none := by
    decide +kernel
  have events : plan.events graph = [⟨.matched, ⟨[⟨1⟩, ⟨1⟩, ⟨2⟩], [⟨0⟩]⟩⟩] := by
    decide +kernel
  obtain ⟨found, later, run, _, implements, _⟩ :=
    Plan.run_ofPattern (Pattern.fault?_of_validate valid) Catalog.empty
  rw [run] at planned unknown
  cases planned
  obtain ⟨counts, finished, collected, _⟩ :=
    implements.wellFormed.collectEvents_eq reachable.sound {}
  rw [events] at collected
  refine ⟨valid, reachable, plan, later, counts, finished, run, collected, ?_⟩
  rintro ⟨type, _, numbered⟩
  rw [unknown] at numbered
  cases numbered

end DeltaGraph
