import DeltaGraph.Proofs.Engine.Spelling
import DeltaGraph.Proofs.Graph.Acceptance

/-!
# What decides whether a batch is accepted

Whether a batch is accepted depends on the committed graph and on the names in
the batch.  A type that is to be removed has to be known or to be named earlier
in the batch.  Besides, every addition has to agree with what is committed; what
the batch itself does to the edges and vertices before makes no difference, and
neither does the order of its changes.
-/

namespace DeltaGraph

/-! ## Spelled out -/

/-- A value is missing, or is not equal to the one that is asked for. -/
def SpelledProperties.Denies
    (properties : SpelledProperties)
    (values : List (String × Value)) :
    Prop :=
  ∃ entry ∈ values, (properties entry.1).any (·.equals entry.2) = false

/-- A committed graph contradicts a step that would give something in it another
type or value. -/
inductive SpelledGraph.Contradicts (committed : SpelledGraph) :
    SpelledStep → Prop
  | type {vertex : VertexId} {stored : SpelledVertex} {given : String}
      {values : List (String × Value)}
      (known : committed.vertices vertex = some stored)
      (different : stored.type ≠ some given) :
      Contradicts committed (.putVertex vertex (some given) values)
  | vertexValue {vertex : VertexId} {stored : SpelledVertex}
      {type : Option String}
      {values : List (String × Value)}
      (known : committed.vertices vertex = some stored)
      (denies : stored.properties.Denies values) :
      Contradicts committed (.putVertex vertex type values)
  | edgeValue {link : SpelledLink} {stored : SpelledEdge}
      {values : List (String × Value)}
      (known : committed.edges link = some stored)
      (denies : stored.properties.Denies values) :
      Contradicts committed (.addEdge link values)

/-- A committed graph contradicts a change, looked at alone: it has one of the
ends of a new edge with another type or value, or the edge itself with another
value. -/
def Change.Contradicts (change : Change) (committed : SpelledGraph) : Prop :=
  ∃ step ∈ change.spelledSteps, committed.Contradicts step

section

variable {catalog : Catalog} {graph : Graph}

/-- Values conflict with the stored ones if these deny them. -/
theorem Properties.conflict?_isSome_iff
    {spelled : List (String × Value)}
    {values : List (PropertyId × Value)}
    (valued : catalog.NumbersValues spelled values)
    (properties : Properties) :
    (∃ property, properties.conflict? values = some property) ↔
      (properties.spell catalog).Denies spelled := by
  induction valued with
  | nil => simp [Properties.conflict?, SpelledProperties.Denies]
  | @cons entry value _ _ first _ inductionHypothesis =>
      obtain ⟨numbers, same⟩ := first
      have read : properties.spell catalog entry.1 = properties[value.1]? := by
        rw [Properties.spell, Catalog.property?_eq_some_iff.mpr numbers,
          Option.bind_some]
      rw [SpelledProperties.Denies, List.exists_mem_cons_iff, ←
        SpelledProperties.Denies, ←
        inductionHypothesis, Properties.conflict?, List.findSome?_cons, read,
          same]
      cases held : (properties[value.1]?).any (·.equals value.2) <;>
        simp [Properties.conflict?, held]

/-- A type has one name. -/
theorem Catalog.typeName?_eq_some_iff
    {type given : TypeId}
    {name : String}
    (known : catalog.KnowsType type)
    (numbers : catalog.types.number? name = some given.number) :
    catalog.typeName? type = some name ↔ given = type := by
  obtain ⟨other, found⟩ := known
  have named : catalog.typeName? type = some other := getElem?_of_idxOf? found
  rw [named, Option.some.injEq, Id.ext_iff]
  constructor
  · rintro rfl
    exact Option.some.inj (numbers.symm.trans found)
  · intro same
    exact Dictionary.number?_injective found
      (numbers.trans (congrArg some same))

/-- A graph resists a step exactly if, spelled out, it contradicts the step
spelled out. -/
theorem Catalog.Spells.resists_iff {named : SpelledStep} {step : BatchStep}
    (spells : catalog.Spells named step)
    (known : graph.UsesOnly catalog.KnowsType catalog.KnowsProperty) :
    graph.Resists step ↔ (graph.spell catalog).Contradicts named := by
  cases spells with
  | @putVertex vertex name type spelled values typed valued =>
      have read : (graph.spell catalog).vertices vertex =
          (graph.vertices[vertex]?).map (Vertex.spell catalog) := rfl
      constructor
      · intro resists
        cases resists with
        | @type vertex stored given values found different =>
            rw [found, Option.map_some] at read
            cases typed with
            | some numbers =>
                refine .type read fun same => different ?_
                exact (Catalog.typeName?_eq_some_iff
                  (known.vertices vertex stored found).1
                  numbers).mp same
        | vertexValue found differs =>
            rw [found, Option.map_some] at read
            exact .vertexValue read
              ((Properties.conflict?_isSome_iff valued _).mp ⟨_, differs⟩)
      · intro contradicts
        cases contradicts with
        | type found different =>
            obtain ⟨stored, present, rfl⟩ :=
              Option.map_eq_some_iff.mp (read.symm.trans found)
            cases typed with
            | some numbers =>
                refine .type present fun same => different ?_
                exact (Catalog.typeName?_eq_some_iff
                  (known.vertices vertex stored present).1
                  numbers).mpr same
        | vertexValue found denies =>
            obtain ⟨stored, present, rfl⟩ :=
              Option.map_eq_some_iff.mp (read.symm.trans found)
            obtain ⟨property, differs⟩ :=
              (Properties.conflict?_isSome_iff valued _).mpr denies
            exact .vertexValue present differs
  | @addEdge named link spelled values linked valued =>
      have read := graph.spell_edges linked
      constructor
      · intro resists
        cases resists with
        | edgeValue found differs =>
            rw [found, Option.map_some] at read
            exact .edgeValue read
              ((Properties.conflict?_isSome_iff valued _).mp ⟨_, differs⟩)
      · intro contradicts
        cases contradicts with
        | edgeValue found denies =>
            obtain ⟨stored, present, rfl⟩ :=
              Option.map_eq_some_iff.mp (read.symm.trans found)
            obtain ⟨property, differs⟩ :=
              (Properties.conflict?_isSome_iff valued _).mpr denies
            exact .edgeValue present differs
  | removeEdge linked =>
      constructor
      · intro resists
        cases resists
      · intro contradicts
        cases contradicts

end

/-! ## Unknown types -/

/-- The names of types that a change adds to the catalog. -/
def Change.typeNames : Change → List String
  | add edge =>
      edge.sourceType.toList ++ edge.targetType.toList ++ edge.type.toList
  | remove _ => []

/-- A removal names a type that is not in the catalog, and that no addition
before it names. -/
def Change.NameUnknownType (changes : List Change) (catalog : Catalog) : Prop :=
  ∃ before reference after name,
    changes = before ++ .remove reference :: after ∧
    reference.type = some name ∧ name ∉ catalog.types.names ∧
    name ∉ before.flatMap Change.typeNames

namespace Catalog

/-- No name of a type was added. -/
def KeepsTypes (catalog later : Catalog) : Prop :=
  later.types = catalog.types

instance : IsPreorder Catalog Catalog.KeepsTypes where
  refl _ := rfl
  trans _ _ _ first second := Eq.trans second first

theorem keepsTypes_findElementType (name : Option String) :
    StepLeads KeepsTypes (findElementType name) := by
  refine StepLeads.bind ?_ fun _ _ => rfl
  cases name with
  | none => exact fun _ => rfl
  | some name =>
      refine StepLeads.bind (fun _ => rfl) fun known =>
        StepLeads.bind (fun _ => rfl) fun _ => ?_
      cases known.types.number? name <;> exact fun _ => rfl

/-- Whatever comes out of an action, it adds names of types to the catalog, and
no others. -/
def AddsTypes
    {α : Type}
    (action : StateM Catalog α)
    (names : List String) : Prop :=
  ∀ catalog name,
    name ∈ (action catalog).2.types.names ↔
      name ∈ catalog.types.names ∨ name ∈ names

section

variable {α β : Type} {names more : List String}

theorem addsTypes_of_keeps
    {action : StateM Catalog α}
    (keeps : Leads KeepsTypes action) :
    AddsTypes action [] := by
  intro catalog name
  rw [keeps catalog, or_iff_left List.not_mem_nil]

theorem AddsTypes.bind
    {action : StateM Catalog α}
    {next : α → StateM Catalog β}
    (first : AddsTypes action names)
    (later : ∀ value, AddsTypes (next value) more) :
    AddsTypes (action >>= next) (names ++ more) := by
  intro catalog name
  have added := later (action catalog).1 (action catalog).2 name
  rw [first catalog name, or_assoc, ← List.mem_append] at added
  exact added

theorem addsTypes_internType? (name : Option String) :
    AddsTypes (internType? name) name.toList := by
  intro catalog other
  cases name with
  | none => exact (or_iff_left List.not_mem_nil).symm
  | some name =>
      have added : other ∈ (catalog.types.intern name).2.names ↔
          other ∈ catalog.types.names ∨ other ∈ [name] := by
        unfold Dictionary.intern
        cases found : catalog.types.number? name with
        | some number =>
            have known : name ∈ catalog.types.names :=
              List.mem_of_getElem? (getElem?_of_idxOf? found)
            simp only [List.mem_singleton, iff_self_or]
            rintro rfl
            exact known
        | none => simp
      exact added

theorem addsTypes_internElementType (name : Option String) :
    AddsTypes (internElementType name) name.toList := by
  have added := (addsTypes_internType? name).bind fun type =>
    addsTypes_of_keeps
      (show Leads KeepsTypes (pure (type.getD TypeId.default))
        from fun _ => rfl)
  rwa [List.append_nil] at added

end

end Catalog

theorem NamedValues.keepsTypes_resolve (values : NamedValues) :
    Leads Catalog.KeepsTypes values.resolve :=
  Leads.mapM fun _ => Leads.bind (fun _ => rfl) fun _ _ => rfl

/-- Resolving an edge to add adds the names of its types. -/
theorem NewEdge.addsTypes_resolve (edge : NewEdge) :
    Catalog.AddsTypes edge.resolve (Change.add edge).typeNames := by
  have nothing {α : Type} (value : α) : Catalog.AddsTypes (pure value) [] :=
    Catalog.addsTypes_of_keeps fun _ => rfl
  have added : Catalog.AddsTypes edge.resolve (edge.sourceType.toList ++ ([] ++
      (edge.targetType.toList ++ ([] ++ (edge.type.toList ++ ([] ++ [])))))) :=
    (Catalog.addsTypes_internType? _).bind fun _ =>
      (Catalog.addsTypes_of_keeps edge.sourceValues.keepsTypes_resolve).bind
        fun _ =>
          (Catalog.addsTypes_internType? _).bind fun _ =>
            (Catalog.addsTypes_of_keeps
              edge.targetValues.keepsTypes_resolve).bind fun _ =>
                (Catalog.addsTypes_internElementType _).bind fun _ =>
                  (Catalog.addsTypes_of_keeps
                    edge.edgeValues.keepsTypes_resolve).bind fun _ =>
                      nothing _
  simpa [Change.typeNames] using added

namespace Change

variable {catalog later : Catalog} {changes : List Change}

theorem addsTypes_resolve (change : Change) :
    Catalog.AddsTypes change.resolve.run change.typeNames := by
  cases change with
  | add edge => exact edge.addsTypes_resolve
  | remove reference =>
      refine Catalog.addsTypes_of_keeps ?_
      exact StepLeads.bind
        (StepLeads.bind (Catalog.keepsTypes_findElementType reference.type)
          fun _ _ => rfl) fun _ _ => rfl

/-- Resolving changes adds the names of their types. -/
theorem mem_types_of_resolved
    {resolved : List ResolvedChange}
    (names : changes.mapM Change.resolve catalog = (.ok resolved, later))
    (name : String) :
    name ∈ later.types.names ↔
      name ∈ catalog.types.names ∨ name ∈ changes.flatMap Change.typeNames := by
  induction changes generalizing catalog resolved with
  | nil =>
      cases names
      simp
  | cons change rest inductionHypothesis =>
      rw [List.mapM_cons] at names
      obtain ⟨first, middle, here, names⟩ := run_bind_eq_ok.mp names
      obtain ⟨others, final, there, last⟩ := run_bind_eq_ok.mp names
      cases last
      have added := change.addsTypes_resolve catalog name
      rw [show change.resolve.run catalog = (.ok first, middle) from here]
        at added
      rw [inductionHypothesis there, added, List.flatMap_cons, List.mem_append,
        or_assoc]

/-- Changes fail to be resolved exactly if they name an unknown type. -/
theorem resolve_fails_iff :
    (∃ error, (changes.mapM Change.resolve catalog).1 = .error error) ↔
      NameUnknownType changes catalog := by
  constructor
  · rintro ⟨error, fails⟩
    obtain ⟨name, _, before, reference, after, resolved, known, split, names,
        typed, unknown⟩ :=
      missesType_of_error (Prod.ext fails rfl)
    have missing : name ∉ known.types.names :=
      List.idxOf?_eq_none_iff.mp unknown
    rw [mem_types_of_resolved names, not_or] at missing
    exact ⟨before, reference, after, name, split, typed, missing.1, missing.2⟩
  · rintro ⟨before, reference, after, name, rfl, typed, unknown, unnamed⟩
    cases outcome :
      (((before ++ .remove reference :: after).mapM Change.resolve)
        catalog).1 with
    | error error => exact ⟨error, rfl⟩
    | ok resolved =>
        obtain ⟨first, middle, rest, here, there, _⟩ :=
          resolved_append (Prod.ext outcome rfl)
        -- What comes before the removal adds no other names, so the removal
        -- finds none.
        have missing : name ∉ middle.types.names := by
          rw [mem_types_of_resolved here, not_or]
          exact ⟨unknown, unnamed⟩
        rw [List.mapM_cons] at there
        obtain ⟨_, next, found, _⟩ := run_bind_eq_ok.mp there
        cases resolves_resolve found with
        | remove resolves =>
            obtain ⟨_, numbers, _⟩ := resolves.type
            rw [typed] at numbers
            cases numbers with
            | some numbers =>
                have known := List.mem_of_getElem? (getElem?_of_idxOf? numbers)
                have added := addsTypes_resolve (.remove reference) middle name
                rw [show (remove reference).resolve.run middle = _ from found]
                  at added
                exact absurd known
                  (mt added.mp (not_or.mpr ⟨missing, List.not_mem_nil⟩))

end Change

/-! ## Acceptance -/

section

variable {graph : Graph} {catalog later : Catalog} {changes : List Change}
  {resolved : List ResolvedChange}

/-- A graph resists a step of resolved changes exactly if, spelled out, it
contradicts a change. -/
theorem Graph.Legible.resists_iff (legible : graph.Legible catalog)
    (resolves : List.Forall₂ (Change.Resolves catalog) changes resolved) :
    (∃ step ∈ resolved.flatMap ResolvedChange.steps, graph.Resists step) ↔
      ∃ change ∈ changes, change.Contradicts (graph.spell catalog) := by
  have spells := Change.spells_of_resolves legible.default resolves
  constructor
  · rintro ⟨step, member, resists⟩
    obtain ⟨named, among, spelled⟩ := exists_left_of_forall₂ spells member
    obtain ⟨change, listed, has⟩ := List.mem_flatMap.mp among
    exact ⟨change, listed, named, has,
      (spelled.resists_iff legible.known).mp resists⟩
  · rintro ⟨change, listed, named, has, contradicts⟩
    obtain ⟨step, member, spelled⟩ :=
      exists_right_of_forall₂ spells
        (List.mem_flatMap.mpr ⟨change, listed, has⟩)
    exact ⟨step, member, (spelled.resists_iff legible.known).mpr contradicts⟩

/-- The steps of a batch are accepted exactly if the committed graph contradicts
none of its changes. -/
theorem Graph.Legible.accepts_iff (legible : graph.rollback.2.Legible catalog)
    (names : changes.mapM Change.resolve catalog = (.ok resolved, later)) :
    graph.Accepts (resolved.flatMap ResolvedChange.steps) ↔
      ¬ ∃ change ∈ changes,
        change.Contradicts (graph.rollback.2.spell catalog) := by
  have grows := Change.extends_of_resolved names
  rw [Graph.accepts_iff_forall_not_resists, ← legible.spell_mono grows,
    ← (legible.mono grows).resists_iff (Change.resolves_of_resolved names)]
  simp only [not_exists, not_and]

end

namespace Session

/-- The committed graph of a session, with names in place of numbers. -/
def committed (session : Session) : SpelledGraph :=
  session.services.graph.rollback.2.spell session.services.catalog

/-- The outcome of a batch is the one that follows from the names in the
catalog, the committed graph and the changes, each of these looked at alone. -/
structure Expects (session : Session) (changes : List Change)
    (outcome : Except Error BatchReport) : Prop where
  unknownType : (∃ name, outcome = .error (.unknownType name)) ↔
    Change.NameUnknownType changes session.services.catalog
  invalid (known : ¬ Change.NameUnknownType changes session.services.catalog) :
    (∃ argument, outcome = .error (.invalid argument)) ↔
      ∃ change ∈ changes, change.Contradicts session.committed
  accepted (known : ¬ Change.NameUnknownType changes session.services.catalog) :
    (∃ report, outcome = .ok report) ↔
      ¬ ∃ change ∈ changes, change.Contradicts session.committed

variable {session : Session}

/-- Unless a sink fails, the outcome of a batch is the expected one. -/
theorem Sound.expects
    (sound : session.Sound)
    (legible :
      session.services.graph.rollback.2.Legible session.services.catalog)
    {changes : List Change}
    (fair : session.failsAtSink changes = false) :
    session.Expects changes
      (session.engine.apply changes session.services).1 := by
  have resolvable {resolved : List ResolvedChange} {catalog : Catalog}
      (names : changes.mapM Change.resolve session.services.catalog =
        (.ok resolved, catalog)) :
      ¬ Change.NameUnknownType changes session.services.catalog := by
    rw [← Change.resolve_fails_iff, names]
    simp
  obtain ⟨outcome, later, run, _, ends⟩ := sound.apply_steps changes
  rw [failsAtSink, run] at fair
  rw [run]
  cases ends with
  | unresolved error catalog names =>
      obtain ⟨name, rfl, _⟩ := Change.missesType_of_error names
      have unknown : Change.NameUnknownType changes session.services.catalog :=
        Change.resolve_fails_iff.mp ⟨_, congrArg Prod.fst names⟩
      exact ⟨iff_of_true ⟨name, rfl⟩ unknown, absurd unknown, absurd unknown⟩
  | refused error catalog resolved reached names refuses =>
      -- The step that is refused depends on the order, but that one is refused
      -- does not.
      have contradicted :=
        not_not.mp (mt (legible.accepts_iff names).mpr refuses.not_accepts)
      obtain ⟨_, _, _, _, _, _, refused⟩ := refuses
      obtain ⟨argument, rfl, _⟩ := Graph.conflicts_of_refused refused
      constructor
      case unknownType => exact iff_of_false (by simp) (resolvable names)
      case invalid => exact fun _ => iff_of_true ⟨argument, rfl⟩ contradicted
      case accepted =>
        exact fun _ => iff_of_false (by simp) (not_not.mpr contradicted)
  | unsent error catalog resolved staged outlets counters names accepted stages
        ofSink =>
      have fine : error.isOfSink = false := fair
      rw [ofSink] at fine
      cases fine
  | committed report catalog resolved staged outlets counters names accepted
        stages =>
      have agreed := (legible.accepts_iff names).mp accepted
      constructor
      case unknownType => exact iff_of_false (by simp) (resolvable names)
      case invalid => exact fun _ => iff_of_false (by simp) agreed
      case accepted => exact fun _ => iff_of_true ⟨report, rfl⟩ agreed

/-- Unless a sink fails, whether a batch is accepted depends on no more than the
committed graph and the names in it, if the catalog knows all that is committed.
So it makes no difference in which order the changes of a batch come, as long as
the types to be removed are known. -/
theorem decides_by_committed_graph
    (config : Config)
    (before : List Call)
    (changes : List Change)
    (known :
      ((start config).run before).services.graph.rollback.2.UsesOnly
        ((start config).run before).services.catalog.KnowsType
        ((start config).run before).services.catalog.KnowsProperty) :
    let now := (start config).run before
    (now.engine.Trusts now.services.outlets →
      ∀ batch, now.failsAtSink batch = false) ∧
      (now.failsAtSink changes = false →
        now.Expects changes (now.engine.apply changes now.services).1) ∧
      ∀ others, changes.Perm others →
        now.failsAtSink changes = false → now.failsAtSink others = false →
        ¬ Change.NameUnknownType changes now.services.catalog →
        ¬ Change.NameUnknownType others now.services.catalog →
        ((∃ report, (now.engine.apply changes now.services).1 = .ok report) ↔
          ∃ report, (now.engine.apply others now.services).1 = .ok report) := by
  intro now
  have sound : now.Sound := (sound_start config).run before
  have initial :
      Catalog.empty.types.number? "_default" = some TypeId.default.number := by
    decide
  have default :
      now.services.catalog.types.number? "_default" =
        some TypeId.default.number :=
    Dictionary.number?_of_prefix ((sound_start config).extends_run before).types
      initial
  have legible : now.services.graph.rollback.2.Legible now.services.catalog :=
    ⟨sound.graph.rollback, default, known⟩
  refine ⟨sound.not_failsAtSink, sound.expects legible, ?_⟩
  intro others same fair fairToo knownHere knownThere
  rw [(sound.expects legible fair).accepted knownHere,
    (sound.expects legible fairToo).accepted knownThere]
  simp only [same.mem_iff]

/-- Batches that remove a committed edge by a type that is known or is only now
named, and that give a value to an edge that they removed. -/
theorem decides_by_committed_graph_for_replaced_edge :
    let pattern : Pattern :=
      { declared := [⟨"a", none⟩, ⟨"b", some "person"⟩]
        relations := [⟨"a", "b", none, none⟩]
        predicates := [] }
    let edge : NewEdge :=
      { source := ⟨1⟩, target := ⟨2⟩, type := some "knows",
        targetType := some "person"
        targetValues := .ofList [("age", Value.int 7)]
        edgeValues := .ofList [("since", Value.int 1)] }
    let another : NewEdge :=
      { source := ⟨3⟩, target := ⟨2⟩, type := some "likes" }
    let before : List Call :=
      [.addSink (.memory []), .subscribeSink pattern 0, .apply [.add edge]]
    let knows : Change := .remove ⟨⟨1⟩, ⟨2⟩, some "knows"⟩
    let likes : Change := .remove ⟨⟨1⟩, ⟨2⟩, some "likes"⟩
    let denied : Change :=
      .add { edge with edgeValues := .ofList [("since", Value.int 2)] }
    let now := (start {}).run before
    let outcome (changes : List Change) :=
      (now.engine.apply changes now.services).1
    now.engine.Trusts now.services.outlets ∧
      now.services.graph.rollback.2.UsesOnly now.services.catalog.KnowsType
        now.services.catalog.KnowsProperty ∧
      outcome [knows, .add another, likes, .add edge] =
        .ok { emerged := 2, deleted := 1, missing := 1, commit := ⟨1, 0, 2⟩ } ∧
      (∃ report, outcome [.add another, knows, likes, .add edge] = .ok report) ∧
      (∃ change ∈ [knows, .add another, denied],
        change.Contradicts now.committed) ∧
      Change.NameUnknownType [knows, likes, .add another]
        now.services.catalog := by
  intro pattern edge another before knows likes denied now outcome
  have trusts : now.engine.Trusts now.services.outlets := by decide +kernel
  have succeeds : (start {}).succeedsAll before = true := by decide +kernel
  obtain ⟨legible, _⟩ :=
    (sound_start {}).spelled_run Graph.Legible.empty succeeds
  have known := legible.known.rollback
  have decides (changes : List Change) :=
    decides_by_committed_graph {} before changes known
  have fair : ∀ batch, now.failsAtSink batch = false := (decides []).1 trusts
  have accepted : outcome [knows, .add another, likes, .add edge] = .ok
      { emerged := 2, deleted := 1, missing := 1, commit := ⟨1, 0, 2⟩ } := by
    decide +kernel
  have named {changes : List Change} (resolves : ((changes.mapM Change.resolve)
      now.services.catalog).1.isOk = true) :
      ¬ Change.NameUnknownType changes now.services.catalog := by
    rw [← Change.resolve_fails_iff]
    rintro ⟨error, fails⟩
    rw [fails] at resolves
    cases resolves
  have agree := (decides [knows, .add another, likes, .add edge]).2.2
  have permuted :=
    (agree _ (.swap _ _ _) (fair _) (fair _) (named (by decide +kernel))
      (named (by decide +kernel))).mp ⟨_, accepted⟩
  have contradicted : ∃ change ∈ [knows, .add another, denied],
      change.Contradicts now.committed := by
    by_contra agreed
    obtain ⟨report, succeeds⟩ :=
      (((decides [knows, .add another, denied]).2.1 (fair _)).accepted
        (named (by decide +kernel))).mpr agreed
    have refused : (outcome [knows, .add another, denied]).isOk = false := by
      decide +kernel
    rw [show outcome [knows, .add another, denied] = .ok report from succeeds]
      at refused
    cases refused
  have unknown :
      outcome [knows, likes, .add another] = .error (.unknownType "likes") := by
    decide +kernel
  exact ⟨trusts, known, accepted, permuted, contradicted,
    ((decides [knows, likes, .add another]).2.1 (fair _)).unknownType.mp
      ⟨"likes", unknown⟩⟩

/-- A sink that takes the rows of a batch but cannot be flushed rejects a batch
that contradicts nothing.  And a committed type without a name is given the name
that a batch mentions first, so that the order of the changes matters. -/
theorem decides_otherwise_if_flush_fails_or_type_unnamed :
    (let pattern : Pattern :=
        { declared := [⟨"a", none⟩, ⟨"b", none⟩]
          relations := [⟨"a", "b", none, none⟩]
          predicates := [] }
      let now :=
        (start {}).run
          [.addSink (.limited "x" 10 true), .subscribeSink pattern 0]
      let changes : List Change := [.add { source := ⟨1⟩, target := ⟨2⟩ }]
      now.services.graph.isPending = false ∧
        (now.call (.apply changes)).services.outlets.log =
          [.flush "x", .event "x" ⟨.emerged, ⟨[⟨1⟩, ⟨2⟩], [⟨0⟩]⟩⟩] ∧
        (now.engine.apply changes now.services).1 = .error .missingTarget ∧
        ¬ now.Expects changes (now.engine.apply changes now.services).1) ∧
    (let now := (start {}).run [.stage (.putVertex ⟨1⟩ (some ⟨1⟩) []), .commit]
      let city : Change :=
        .add { source := ⟨2⟩, target := ⟨2⟩, sourceType := some "city" }
      let person : Change :=
        .add { source := ⟨1⟩, target := ⟨1⟩, sourceType := some "person" }
      now.services.graph.isPending = false ∧ now.engine.queries = [] ∧
        (now.engine.apply [city, person] now.services).1 =
          .error (.invalid (.retypedVertex ⟨1⟩ ⟨1⟩ ⟨2⟩)) ∧
        (now.engine.apply [person, city] now.services).1 =
          .ok { commit := ⟨2, 0, 2⟩ }) := by
  constructor
  · intro pattern now changes
    have fails :
        (now.engine.apply changes now.services).1 = .error .missingTarget := by
      decide +kernel
    refine ⟨by decide +kernel, by decide +kernel, fails, fun expects => ?_⟩
    rw [fails] at expects
    have known : ¬ Change.NameUnknownType changes now.services.catalog :=
      mt expects.unknownType.mpr (by simp)
    exact mt (expects.accepted known).mpr (by simp)
      (mt (expects.invalid known).mpr (by simp))
  · decide +kernel

end Session

end DeltaGraph
