import DeltaGraph.Proofs.Engine.Naming
import DeltaGraph.Proofs.Graph.Renaming

/-!
# Changes spelled out

The steps of a change can be told by the names in the change, without a catalog.
A batch that is resolved and staged does to the graph spelled out what these
steps do, and misses as many removals as it does with any other catalog.  So
does a run of batches that succeed, with other calls in between.
-/

namespace DeltaGraph

namespace Change

/-- The link that a change adds or removes. -/
def link : Change → SpelledLink
  | add edge => ⟨edge.source, edge.target, edge.type.getD "_default"⟩
  | remove reference =>
      ⟨reference.source, reference.target, reference.type.getD "_default"⟩

/-- The steps of a change, with names in place of numbers. -/
def spelledSteps : Change → List SpelledStep
  | add edge =>
      [.putVertex edge.source edge.sourceType edge.sourceValues.toList,
        .putVertex edge.target edge.targetType edge.targetValues.toList,
        .addEdge (add edge).link edge.edgeValues.toList]
  | remove reference => [.removeEdge (remove reference).link]

end Change

section

variable {catalog later another : Catalog} {graph other : Graph}

theorem Catalog.number?_of_numbersElement
    (default : catalog.types.number? "_default" = some TypeId.default.number)
    {name : Option String}
    {type : TypeId}
    (numbers : catalog.NumbersElement name type) :
    catalog.types.number? (name.getD "_default") = some type.number := by
  obtain ⟨given, numbered, rfl⟩ := numbers
  cases numbered with
  | none => exact default
  | some found => exact found

namespace Change.Resolves

variable {change : Change} {resolved counterpart : ResolvedChange}

theorem link
    (default : catalog.types.number? "_default" = some TypeId.default.number)
    (resolves : Change.Resolves catalog change resolved) :
    catalog.link? change.link = some resolved.linkChange.link := by
  cases resolves with
  | add resolves =>
      exact Catalog.link?_eq_some_iff.mpr
        ⟨resolves.source.symm, resolves.target.symm,
          Catalog.number?_of_numbersElement default resolves.type⟩
  | remove resolves =>
      exact Catalog.link?_eq_some_iff.mpr
        ⟨resolves.source.symm, resolves.target.symm,
          Catalog.number?_of_numbersElement default resolves.type⟩

/-- The steps of a resolved change are those of the change with numbers for
names. -/
theorem spells
    (default : catalog.types.number? "_default" = some TypeId.default.number)
    (resolves : Change.Resolves catalog change resolved) :
    List.Forall₂ catalog.Spells change.spelledSteps resolved.steps := by
  have linked := resolves.link default
  cases resolves with
  | add resolves =>
      rw [spelledSteps, ResolvedChange.steps, resolves.source, resolves.target]
      exact .cons (.putVertex _ resolves.sourceType resolves.sourceValues)
        (.cons (.putVertex _ resolves.targetType resolves.targetValues)
          (.cons (.addEdge linked resolves.edgeValues) .nil))
  | remove resolves => exact .cons (.removeEdge linked) .nil

end Change.Resolves

theorem Change.spells_of_resolves
    {changes : List Change}
    {resolved : List ResolvedChange}
    (default : catalog.types.number? "_default" = some TypeId.default.number)
    (resolves : List.Forall₂ (Change.Resolves catalog) changes resolved) :
    List.Forall₂ catalog.Spells (changes.flatMap Change.spelledSteps)
      (resolved.flatMap ResolvedChange.steps) := by
  induction resolves with
  | nil => exact .nil
  | cons first _ inductionHypothesis =>
      rw [List.flatMap_cons, List.flatMap_cons]
      exact List.rel_append (first.spells default) inductionHypothesis

/-! ## Batches -/

theorem Graph.Legible.typeName? (legible : graph.Legible catalog) :
    catalog.typeName? .default = some "_default" :=
  getElem?_of_idxOf? legible.default

namespace Graph.Legible

variable {changes : List Change} {resolved : List ResolvedChange}

theorem stageAll (legible : graph.Legible catalog)
    (resolves : List.Forall₂ (Change.Resolves catalog) changes resolved) :
    (graph.stageAll
      (resolved.flatMap ResolvedChange.steps)).Legible catalog where
  sound := legible.sound.stageAll _
  default := legible.default
  known :=
    legible.known.stageAll
      (Change.usesOnly_of_resolves resolves legible.known.default
        (fun found => ⟨_, found⟩) fun found => ⟨_, found⟩)

theorem commit (legible : graph.Legible catalog) :
    graph.commit.2.Legible catalog where
  sound := legible.sound.commit
  default := legible.default
  known := legible.known.commit

/-- A batch does to the graph spelled out what its changes do. -/
theorem spell_stageAll (legible : graph.Legible catalog)
    (resolves : List.Forall₂ (Change.Resolves catalog) changes resolved)
    (accepted : graph.Accepts (resolved.flatMap ResolvedChange.steps)) :
    (graph.stageAll (resolved.flatMap ResolvedChange.steps)).spell catalog =
      (graph.spell catalog).stageAll (changes.flatMap Change.spelledSteps) :=
  Graph.spell_stageAll legible.typeName?
    (Change.spells_of_resolves legible.default resolves)
    accepted

end Graph.Legible

/-- A batch that two graphs that agree both accept leads to graphs that
agree. -/
theorem Graph.AgreesWith.stageAll
    (agrees : graph.AgreesWith catalog other another)
    {changes : List Change}
    {resolved counterparts : List ResolvedChange}
    (resolves : List.Forall₂ (Change.Resolves catalog) changes resolved)
    (resolvesToo : List.Forall₂ (Change.Resolves another) changes counterparts)
    (accepted : graph.Accepts (resolved.flatMap ResolvedChange.steps))
    (acceptedToo : other.Accepts (counterparts.flatMap ResolvedChange.steps)) :
    (graph.stageAll (resolved.flatMap ResolvedChange.steps)).AgreesWith catalog
      (other.stageAll (counterparts.flatMap ResolvedChange.steps)) another where
  here := agrees.here.stageAll resolves
  there := agrees.there.stageAll resolvesToo
  same := by
    rw [agrees.here.spell_stageAll resolves accepted,
      agrees.there.spell_stageAll resolvesToo acceptedToo, agrees.same]

/-! ## Missing removals -/

/-- Two ways to resolve a change lead to links that are the same when they are
spelled out. -/
theorem Change.Resolves.corresponds
    (default : catalog.types.number? "_default" = some TypeId.default.number)
    (defaultToo : another.types.number? "_default" = some TypeId.default.number)
    {change : Change} {resolved counterpart : ResolvedChange}
    (resolves : Change.Resolves catalog change resolved)
    (resolvesToo : Change.Resolves another change counterpart) :
    catalog.Corresponds another resolved.linkChange.link
      counterpart.linkChange.link :=
  ⟨change.link, resolves.link default, resolvesToo.link defaultToo⟩

/-- The removals that are missing do not depend on the catalog. -/
theorem countMissing_eq
    (default : catalog.types.number? "_default" = some TypeId.default.number)
    (defaultToo : another.types.number? "_default" = some TypeId.default.number)
    {changes : List Change}
    {resolved counterparts : List ResolvedChange}
    (resolves : List.Forall₂ (Change.Resolves catalog) changes resolved)
    (resolvesToo : List.Forall₂ (Change.Resolves another) changes counterparts)
    {links others : Finset Link}
    (aligns : catalog.Aligns another links others) :
    countMissing links resolved = countMissing others counterparts := by
  induction resolves generalizing counterparts links others with
  | nil =>
      cases resolvesToo
      rfl
  | cons first _ inductionHypothesis =>
      cases resolvesToo with
      | cons firstToo restToo =>
          have corresponds := first.corresponds default defaultToo firstToo
          cases first with
          | add =>
              cases firstToo
              have later :=
                inductionHypothesis restToo (aligns.insert corresponds)
              exact congrArg (Bool.toNat false + ·) later
          | @remove reference link _ =>
              obtain _ | @⟨_, counterpart, _⟩ := firstToo
              have later :=
                inductionHypothesis restToo (aligns.erase corresponds)
              have missed : (ResolvedChange.remove link).misses links =
                  (ResolvedChange.remove counterpart).misses others :=
                decide_eq_decide.mpr (not_congr (aligns.mem_iff corresponds))
              exact congrArg₂ (fun missed count => Bool.toNat missed + count)
                missed later

end

/-! ## Runs of batches that succeed -/

/-- The changes of a call that applies a batch. -/
def Call.batch? : Call → Option (List Change)
  | .apply changes => some changes
  | _ => none

/-- The graph spelled out after a batch. -/
def SpelledGraph.apply
    (graph : SpelledGraph)
    (changes : List Change) : SpelledGraph :=
  (graph.stageAll (changes.flatMap Change.spelledSteps)).commit

/-- The graph spelled out after batches, one after another. -/
def SpelledGraph.applyAll
    (graph : SpelledGraph)
    (batches : List (List Change)) : SpelledGraph :=
  batches.foldl apply graph

namespace Session

/-- Whether a call is a batch that succeeds, or does not touch the graph. -/
def succeeds (session : Session) : Call → Bool
  | .apply changes => (session.engine.apply changes session.services).1.isOk
  | call => !call.touchesGraph

/-- Whether every call is a batch that succeeds, or does not touch the graph. -/
def succeedsAll : Session → List Call → Bool
  | _, [] => true
  | session, call :: rest =>
      session.succeeds call && (session.call call).succeedsAll rest

/-- The graph of the session, spelled out. -/
def spelled (session : Session) : SpelledGraph :=
  session.services.graph.spell session.services.catalog

/-- The catalog of the session knows all that its graph is made of. -/
def Legible (session : Session) : Prop :=
  session.services.graph.Legible session.services.catalog

variable {session : Session}

theorem exists_report {changes : List Change}
    (succeeds : session.succeeds (.apply changes) = true) :
    ∃ report,
      (session.engine.apply changes session.services).1 = .ok report := by
  rw [Session.succeeds] at succeeds
  cases outcome : (session.engine.apply changes session.services).1 with
  | ok report => exact ⟨report, rfl⟩
  | error error =>
      rw [outcome] at succeeds
      cases succeeds

/-- A batch that succeeds does to the graph spelled out what its changes do. -/
theorem Sound.spelled_apply
    (sound : session.Sound)
    (legible : session.Legible)
    {changes : List Change}
    (succeeds : session.succeeds (.apply changes) = true) :
    (session.call (.apply changes)).Legible ∧
      (session.call (.apply changes)).spelled =
        session.spelled.apply changes := by
  obtain ⟨report, succeeds⟩ := exists_report succeeds
  obtain ⟨resolved, catalog, outlets, counters, names, accepted, after, _⟩ :=
    Engine.commits_of_apply sound.engine.planned sound.graph succeeds
  have services : (session.call (.apply changes)).services = _ := after
  have known := Graph.Legible.mono legible (Change.extends_of_resolved names)
  have resolves := Change.resolves_of_resolved names
  rw [Legible, Session.spelled, services]
  refine ⟨(known.stageAll resolves).commit, ?_⟩
  rw [Graph.spell_commit, known.spell_stageAll resolves accepted,
    Graph.Legible.spell_mono legible (Change.extends_of_resolved names)]
  rfl

/-- A call does to the graph spelled out what the batch does, if the call is
one. -/
theorem Sound.spelled_call
    (sound : session.Sound)
    (legible : session.Legible)
    {call : Call}
    (succeeds : session.succeeds call = true) :
    (session.call call).Legible ∧
      (session.call call).spelled =
        session.spelled.applyAll call.batch?.toList := by
  by_cases untouched : call.touchesGraph = false
  · have grows := session.grows_call untouched
    have none : call.batch? = none := by
      cases call with
      | apply changes => cases untouched
      | _ => rfl
    rw [Legible, Session.spelled, grows.graph, none]
    exact ⟨Graph.Legible.mono legible grows.catalog,
      Graph.Legible.spell_mono legible grows.catalog⟩
  · cases call with
    | apply changes => exact sound.spelled_apply legible succeeds
    | stage step => cases succeeds
    | commit => cases succeeds
    | rollback => cases succeeds
    | _ => exact absurd rfl untouched

/-- A run does to the graph spelled out what its batches do. -/
theorem Sound.spelled_run
    (sound : session.Sound)
    (legible : session.Legible)
    {calls : List Call}
    (succeeds : session.succeedsAll calls = true) :
    (session.run calls).Legible ∧
      (session.run calls).spelled =
        session.spelled.applyAll (calls.filterMap Call.batch?) := by
  induction calls generalizing session with
  | nil => exact ⟨legible, rfl⟩
  | cons call rest inductionHypothesis =>
      rw [succeedsAll, Bool.and_eq_true] at succeeds
      obtain ⟨middle, spelled⟩ := sound.spelled_call legible succeeds.1
      obtain ⟨last, run⟩ :=
        inductionHypothesis (sound.call call) middle succeeds.2
      refine ⟨last, run.trans ?_⟩
      rw [spelled, SpelledGraph.applyAll, SpelledGraph.applyAll, ←
        List.foldl_append]
      cases batch : call.batch? <;> simp [batch, SpelledGraph.applyAll]

end Session

end DeltaGraph
