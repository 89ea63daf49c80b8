import DeltaGraph.Proofs.Graph.Links
import DeltaGraph.Proofs.Graph.Rollback

/-!
# Numbers of edges

An edge gets the next number when it comes into the table of edges, and keeps
the number until the end of a batch drops it from the table.  From then on the
number stands for no edge, not even for a later edge with the same link.
-/

namespace DeltaGraph

/-- What changes a graph: a step of a batch, or the end of the batch. -/
inductive Operation
  | stage (step : BatchStep)
  | commit
  | rollback

namespace Graph

/-- The graph after an operation. -/
def operate (graph : Graph) : Operation → Graph
  | .stage step => graph.stage step
  | .commit => graph.commit.2
  | .rollback => graph.rollback.2

/-- The graph after operations, one after another. -/
def operateAll (graph : Graph) (operations : List Operation) : Graph :=
  operations.foldl operate graph

theorem Reachable.operate {graph : Graph} (reachable : graph.Reachable)
    (operation : Operation) : (graph.operate operation).Reachable := by
  cases operation with
  | stage step => exact .stage step reachable
  | commit => exact .commit reachable
  | rollback => exact .rollback reachable

theorem Reachable.operateAll
    {graph : Graph}
    (reachable : graph.Reachable)
    (operations : List Operation) :
    (graph.operateAll operations).Reachable := by
  induction operations generalizing graph with
  | nil => exact reachable
  | cons operation rest inductionHypothesis =>
      exact inductionHypothesis (reachable.operate operation)

/-- The number that an operation gives to an edge which was not in the table. -/
def newNumber? (graph : Graph) : Operation → Option EdgeId
  | .stage (.addEdge link values) =>
      if link ∈ graph.edges then none
        else (graph.addEdge link values).toOption.map Prod.fst
  | _ => none

/-- The numbers that operations give to such edges, one after another. -/
def newNumbers (graph : Graph) : List Operation → List EdgeId
  | [] => []
  | operation :: rest =>
      (graph.newNumber? operation).toList ++
        (graph.operate operation).newNumbers rest

/-- An edge is in the table before operations and after each of them. -/
def Tracks (graph : Graph) (link : Link) : List Operation → Prop
  | [] => link ∈ graph.edges
  | operation :: rest =>
      link ∈ graph.edges ∧ (graph.operate operation).Tracks link rest

instance decidableTracks (graph : Graph) (link : Link) :
    (operations : List Operation) → Decidable (graph.Tracks link operations)
  | [] => inferInstanceAs (Decidable (link ∈ graph.edges))
  | operation :: rest =>
      have := decidableTracks (graph.operate operation) link rest
      inferInstanceAs
        (Decidable
          (link ∈ graph.edges ∧ (graph.operate operation).Tracks link rest))

/-! ## One operation -/

/-- The number of the edge at a link. -/
def number? (graph : Graph) (link : Link) : Option EdgeId :=
  (graph.edges[link]?).map Edge.id

/-- A link has no number exactly when there is no edge for it. -/
theorem number?_eq_none_iff {graph : Graph} {link : Link} :
    graph.number? link = none ↔ link ∉ graph.edges := by
  simp [number?]

/-- Adding an edge gives the number that its link has afterwards. -/
theorem number?_of_addEdge
    {graph next : Graph}
    {link : Link}
    {values : List (PropertyId × Value)}
    {id : EdgeId}
    (added : graph.addEdge link values = .ok (id, next)) :
    next.number? link = some id := by
  unfold addEdge at added
  split at added
  · cases added
  · have written := Except.ok.inj added
    have numberIs := congrArg Prod.fst written
    have nextIs := congrArg Prod.snd written
    simp only at numberIs nextIs
    rw [← nextIs, ←
      numberIs, number?, getElem?_writeEdge, if_pos rfl, writeEdge_fst]
    rfl

theorem operate_addEdge
    {graph next : Graph}
    {link : Link}
    {values : List (PropertyId × Value)}
    {id : EdgeId}
    (added : graph.addEdge link values = .ok (id, next)) :
    graph.operate (.stage (.addEdge link values)) = next := by
  have taken : graph.attempt (.addEdge link values) = .ok next := by
    rw [attempt, added]
    rfl
  exact stage_of_attempt taken

/-- What an operation does to the numbers: it gives the next number to one edge
that has none, or gives no number. -/
inductive Renumbers (graph next : Graph) : Option EdgeId → Prop
  | gives (link : Link) (missing : graph.number? link = none)
      (given : next.number? link = some ⟨graph.freshEdge⟩)
      (others : ∀ other, link ≠ other →
        next.number? other = graph.number? other)
      (fresh : next.freshEdge = graph.freshEdge + 1) :
      Renumbers graph next (some ⟨graph.freshEdge⟩)
  | keeps
      (same : ∀ link, next.number? link = graph.number? link ∨
        next.number? link = none)
      (fresh : next.freshEdge = graph.freshEdge) : Renumbers graph next none

theorem Renumbers.of_edges
    {graph next : Graph}
    (edges : next.edges = graph.edges)
    (fresh : next.freshEdge = graph.freshEdge) :
    graph.Renumbers next none :=
  .keeps (fun link => .inl (by rw [number?, number?, edges])) fresh

/-- Only the table of edges and the next number matter to what is given. -/
theorem Renumbers.of_start
    {graph start next : Graph}
    {new? : Option EdgeId}
    (edges : graph.edges = start.edges)
    (fresh : graph.freshEdge = start.freshEdge)
    (renumbers : graph.Renumbers next new?) :
    start.Renumbers next new? := by
  have numbers : graph.number? = start.number? := by
    funext link
    rw [number?, number?, edges]
  cases renumbers with
  | gives link missing given others next =>
      rw [fresh]
      exact .gives link (numbers ▸ missing) (fresh ▸ given) (numbers ▸ others)
        (fresh ▸ next)
  | keeps same next => exact .keeps (numbers ▸ same) (fresh ▸ next)

/-- The end of a batch gives no numbers. -/
theorem renumbers_settle (graph : Graph) (version : Version) :
    graph.Renumbers (graph.settle (·.visible version)) none := by
  refine .keeps (fun link => ?_) rfl
  rw [number?, number?, getElem?_settle, survivor?]
  cases graph.edges[link]? with
  | none => exact .inl rfl
  | some edge =>
      cases shown : edge.history.visible version <;> simp [Option.filter, shown]

theorem ensureVertex_freshEdge (graph : Graph) (vertex : VertexId) :
    (graph.ensureVertex vertex).freshEdge = graph.freshEdge := by
  unfold ensureVertex
  split <;> rfl

/-- Writing an edge gives the next number if the edge is not in the table. -/
theorem renumbers_writeEdge
    (graph : Graph)
    (link : Link)
    (values : List (PropertyId × Value)) :
    graph.Renumbers (graph.writeEdge link values).2
      (if link ∈ graph.edges then none
        else some (graph.writeEdge link values).1) := by
  have lookup (other : Link) : (graph.writeEdge link values).2.number? other =
      if link = other then some (graph.addedEdge link values).id
        else graph.number? other := by
    rw [number?, getElem?_writeEdge]
    split <;> rfl
  cases found : graph.edges[link]? with
  | some edge =>
      have known : link ∈ graph.edges := by
        rw [Std.ExtTreeMap.mem_iff_isSome_getElem?, found, Option.isSome_some]
      rw [if_pos known]
      refine .keeps (fun other => .inl ?_) (by simp [writeEdge, found, touch])
      rw [lookup]
      split
      · rename_i same
        subst same
        simp [number?, addedEdge, found]
      · rfl
  | none =>
      have unknown : link ∉ graph.edges := by
        rw [← number?_eq_none_iff, number?, found, Option.map_none]
      have number : (graph.addedEdge link values).id = ⟨graph.freshEdge⟩ := by
        simp [addedEdge, found]
      rw [if_neg unknown, writeEdge_fst, number]
      refine .gives link (number?_eq_none_iff.mpr unknown) ?_ ?_
        (by simp [writeEdge, found, touch])
      · rw [lookup, if_pos rfl, number]
      · intro other different
        rw [lookup, if_neg different]

/-- Removing an edge leaves it in the table with its number. -/
theorem renumbers_removeEdge?
    {graph next : Graph}
    {link : Link}
    (removal : graph.removeEdge? link = some next) :
    graph.Renumbers next none := by
  obtain ⟨edge, history, found, _, rfl⟩ := removeEdge?_eq_some removal
  refine .keeps (fun other => .inl ?_) rfl
  by_cases same : link = other
  · subst same
    simp [number?, found]
  · simp [number?, Std.ExtTreeMap.getElem?_insert, same]

/-- An operation gives at most the one new number it announces, and keeps every
other number of a link that stays. -/
theorem renumbers_operate (graph : Graph) (operation : Operation) :
    graph.Renumbers (graph.operate operation) (graph.newNumber? operation) := by
  cases operation with
  | commit => exact graph.renumbers_settle .merged
  | rollback =>
      -- The vertices that a rollback forgets have no numbers in the table of
      -- edges.
      cases graph.renumbers_settle .permanent with
      | keeps same fresh => exact .keeps same fresh
  | stage step =>
      cases step with
      | putVertex vertex type values =>
          simp only [operate, stage, newNumber?]
          cases put : graph.putVertex vertex type values with
          | error error => exact .of_edges rfl rfl
          | ok next =>
              refine .of_edges (edges_putVertex put) ?_
              obtain ⟨_, _, rfl⟩ | ⟨_, rfl⟩ := putVertex_cases put <;> rfl
      | addEdge link values =>
          simp only [operate, stage, newNumber?, addEdge]
          split
          · have refused : graph.Renumbers graph none := .of_edges rfl rfl
            simpa [Except.toOption] using refused
          · have written := renumbers_writeEdge
              ((graph.ensureVertex link.source).ensureVertex link.target) link
              values
            simpa [Except.toOption] using
              written.of_start (by simp) (by simp [ensureVertex_freshEdge])
      | removeEdge link =>
          simp only [operate, stage, newNumber?]
          cases removal : graph.removeEdge? link with
          | none => exact .of_edges rfl rfl
          | some next => exact renumbers_removeEdge? removal

/-! ## Numbers in use -/

/-- A number was given before, and only certain links can have it now. -/
structure Confines
    (graph : Graph)
    (id : EdgeId)
    (links : Link → Prop) : Prop where
  used : id.number < graph.freshEdge
  only {link : Link} (numbered : graph.number? link = some id) : links link

/-- A number in use lies below the next fresh one. -/
theorem Sound.number_lt
    {graph : Graph}
    (sound : graph.Sound)
    {link : Link}
    {id : EdgeId}
    (numbered : graph.number? link = some id) :
    id.number < graph.freshEdge := by
  obtain ⟨edge, found, rfl⟩ := Option.map_eq_some_iff.mp numbered
  exact sound.fresh found

/-- In a sound graph the number of a link is confined to the link. -/
theorem Sound.confines
    {graph : Graph}
    (sound : graph.Sound)
    {link : Link}
    {id : EdgeId}
    (numbered : graph.number? link = some id) :
    graph.Confines id (· = link) where
  used := sound.number_lt numbered
  only {other} otherNumbered := by
    obtain ⟨edge, found, rfl⟩ := Option.map_eq_some_iff.mp numbered
    obtain ⟨another, otherFound, same⟩ :=
      Option.map_eq_some_iff.mp otherNumbered
    exact sound.link_unique otherFound found same

theorem Confines.of_renumbers
    {graph next : Graph}
    {new? : Option EdgeId}
    {id : EdgeId}
    {links : Link → Prop}
    (confines : graph.Confines id links)
    (renumbers : graph.Renumbers next new?) :
    next.Confines id links := by
  cases renumbers with
  | keeps same fresh =>
      refine ⟨fresh ▸ confines.used, fun {link} numbered => ?_⟩
      rcases same link with before | dropped
      · exact confines.only (before ▸ numbered)
      · rw [dropped] at numbered
        cases numbered
  | gives new missing given others fresh =>
      refine ⟨fresh ▸ Nat.lt_succ_of_lt confines.used,
        fun {link} numbered => ?_⟩
      by_cases same : new = link
      · -- The number that is given now was not given before.
        rw [← same, given] at numbered
        cases numbered
        exact absurd confines.used (Nat.lt_irrefl _)
      · exact confines.only (others link same ▸ numbered)

/-- One operation keeps a number to the links it was confined to. -/
theorem Confines.operate {graph : Graph} {id : EdgeId} {links : Link → Prop}
    (confines : graph.Confines id links) (operation : Operation) :
    (graph.operate operation).Confines id links :=
  confines.of_renumbers (graph.renumbers_operate operation)

/-- A run of operations keeps a number to the links it was confined to. -/
theorem Confines.operateAll {graph : Graph} {id : EdgeId} {links : Link → Prop}
    (confines : graph.Confines id links) (operations : List Operation) :
    (graph.operateAll operations).Confines id links := by
  induction operations generalizing graph with
  | nil => exact confines
  | cons operation rest inductionHypothesis =>
      exact inductionHypothesis (confines.operate operation)

/-- A number whose edge is not in the table is not in use. -/
theorem Confines.unused {graph : Graph} {id : EdgeId} {link : Link}
    (confines : graph.Confines id (· = link)) (missing : link ∉ graph.edges) :
    graph.Confines id fun _ => False := by
  refine ⟨confines.used, fun {other} numbered => ?_⟩
  rw [confines.only numbered, number?_eq_none_iff.mpr missing] at numbered
  cases numbered

/-- Once its edge has left the table, a number is not used any more. -/
theorem Confines.of_not_tracks {graph : Graph} {id : EdgeId} {link : Link}
    (confines : graph.Confines id (· = link)) {operations : List Operation}
    (dropped : ¬ graph.Tracks link operations) :
    (graph.operateAll operations).Confines id fun _ => False := by
  induction operations generalizing graph with
  | nil => exact confines.unused dropped
  | cons operation rest inductionHypothesis =>
      by_cases present : link ∈ graph.edges
      · exact inductionHypothesis (confines.operate operation) fun tracked =>
          dropped ⟨present, tracked⟩
      · exact (confines.unused present).operateAll (operation :: rest)

/-- A link that stays keeps its number through an operation. -/
theorem number?_of_renumbers
    {graph next : Graph}
    {new? : Option EdgeId}
    {id : EdgeId}
    {link : Link}
    (renumbers : graph.Renumbers next new?)
    (present : link ∈ next.edges)
    (numbered : graph.number? link = some id) :
    next.number? link = some id := by
  cases renumbers with
  | keeps same _ =>
      rcases same link with before | dropped
      · exact before.trans numbered
      · exact absurd present (number?_eq_none_iff.mp dropped)
  | gives new missing _ others _ =>
      have different : new ≠ link := by
        rintro rfl
        rw [missing] at numbered
        cases numbered
      exact (others link different).trans numbered

theorem Tracks.present
    {graph : Graph}
    {link : Link}
    {operations : List Operation}
    (tracked : graph.Tracks link operations) : link ∈ graph.edges := by
  cases operations with
  | nil => exact tracked
  | cons operation rest => exact tracked.1

/-- An edge keeps its number while it is in the table. -/
theorem number?_operateAll {graph : Graph} {id : EdgeId} {link : Link}
    {operations : List Operation} (tracked : graph.Tracks link operations)
    (numbered : graph.number? link = some id) :
    (graph.operateAll operations).number? link = some id := by
  induction operations generalizing graph with
  | nil => exact numbered
  | cons operation rest inductionHypothesis =>
      have numberedNext :=
        number?_of_renumbers (graph.renumbers_operate operation)
        tracked.2.present numbered
      exact inductionHypothesis tracked.2 numberedNext

/-- A number given during a run is none of those given before it. -/
theorem le_of_mem_newNumbers
    {graph : Graph}
    {operations : List Operation}
    {id : EdgeId}
    (new : id ∈ graph.newNumbers operations) :
    graph.freshEdge ≤ id.number := by
  induction operations generalizing graph with
  | nil => cases new
  | cons operation rest inductionHypothesis =>
      rw [newNumbers, List.mem_append, Option.mem_toList] at new
      have renumbers := graph.renumbers_operate operation
      generalize graph.newNumber? operation = new? at new renumbers
      cases renumbers with
      | keeps _ fresh =>
          rcases new with now | later
          · cases now
          · exact fresh ▸ inductionHypothesis later
      | gives _ _ _ _ fresh =>
          rcases new with now | later
          · cases now
            exact Nat.le_refl _
          · have above := inductionHypothesis later
            omega

/-- The numbers that are given ascend. -/
theorem pairwise_newNumbers (graph : Graph) (operations : List Operation) :
    (graph.newNumbers operations).Pairwise (· < ·) := by
  induction operations generalizing graph with
  | nil => exact .nil
  | cons operation rest inductionHypothesis =>
      rw [newNumbers, List.pairwise_append]
      refine ⟨?_, inductionHypothesis _, ?_⟩
      · cases graph.newNumber? operation with
        | none => exact .nil
        | some id => exact List.pairwise_singleton _ _
      · intro id now later laterNew
        rw [Option.mem_toList] at now
        have above := le_of_mem_newNumbers laterNew
        have renumbers := graph.renumbers_operate operation
        generalize graph.newNumber? operation = new? at now renumbers
        cases renumbers with
        | keeps _ _ => cases now
        | gives _ _ _ _ fresh =>
            cases now
            rw [fresh] at above
            exact Nat.lt_of_succ_le above

/-- What the number of an added edge does during later operations. -/
structure KeepsNumber (graph : Graph) (link : Link) (id : EdgeId)
    (operations : List Operation) : Prop where
  /-- While the edge is in the table, adding it again gives the same number. -/
  again (tracked : graph.Tracks link operations)
    {values : List (PropertyId × Value)}
    {number : EdgeId} {next : Graph}
    (added : (graph.operateAll operations).addEdge link values =
      .ok (number, next)) :
    number = id
  /-- The number leads to no other edge, and to this one only if it never left
  the table. -/
  read {other : Link} {edge : Edge}
    (found : (graph.operateAll operations).edge? id = some (other, edge)) :
    other = link ∧ graph.Tracks link operations
  /-- The number is given to no other edge, and to this one only if it never
  left the table. -/
  given {other : Link} {values : List (PropertyId × Value)} {next : Graph}
    (added : (graph.operateAll operations).addEdge other values =
      .ok (id, next)) :
    other = link ∧ graph.Tracks link operations

/-- A link keeps its number through a run for as long as its edge exists. -/
theorem Sound.keepsNumber
    {graph : Graph}
    (sound : graph.Sound)
    {link : Link}
    {id : EdgeId}
    (numbered : graph.number? link = some id)
    (operations : List Operation)
    (finalSound : (graph.operateAll operations).Sound) :
    graph.KeepsNumber link id operations := by
  have confines := sound.confines numbered
  constructor
  case again =>
    intro tracked values number next added
    have before := number?_operateAll tracked numbered
    have after := number?_of_addEdge added
    have present : link ∈ next.edges := by
      by_contra missing
      rw [number?_eq_none_iff.mpr missing] at after
      cases after
    have renumbers :=
      (graph.operateAll operations).renumbers_operate
        (.stage (.addEdge link values))
    rw [operate_addEdge added] at renumbers
    have kept := number?_of_renumbers renumbers present before
    exact Option.some.inj (after.symm.trans kept)
  case read =>
    intro other edge found
    obtain ⟨present, same⟩ := finalSound.edge?_eq_some_iff.mp found
    have otherNumbered :
        (graph.operateAll operations).number? other = some id := by
      rw [number?, present, Option.map_some, same]
    refine ⟨(confines.operateAll operations).only otherNumbered, ?_⟩
    by_contra dropped
    exact (confines.of_not_tracks dropped).only otherNumbered
  case given =>
    intro other values next added
    have otherNumbered := number?_of_addEdge added
    have later {links : Link → Prop}
        (confined : (graph.operateAll operations).Confines id links) :
        links other := by
      have after := confined.operate (.stage (.addEdge other values))
      rw [operate_addEdge added] at after
      exact after.only otherNumbered
    refine ⟨later (confines.operateAll operations), ?_⟩
    by_contra dropped
    exact later (confines.of_not_tracks dropped)

/-! ## Whole runs -/

theorem mem_edges_stage
    {graph : Graph}
    (sound : graph.Sound)
    (step : BatchStep)
    {link : Link}
    (present : link ∈ graph.edges) :
    link ∈ (graph.stage step).edges := by
  obtain ⟨edge, found⟩ := Option.isSome_iff_exists.mp
    (Std.ExtTreeMap.mem_iff_isSome_getElem?.mp present)
  have linked :=
    links_stage sound step
      ((sound.links_iff edge.id link).mpr ⟨edge, found, rfl⟩)
  obtain ⟨later, foundLater, _⟩ :=
    ((sound.stage step).links_iff edge.id link).mp linked
  rw [Std.ExtTreeMap.mem_iff_isSome_getElem?, foundLater, Option.isSome_some]

/-- The end of a batch keeps the edges of a version in the table. -/
theorem mem_edges_settle {graph : Graph} {version : Version} {link : Link} :
    link ∈ (graph.settle (·.visible version)).edges ↔
      link ∈ graph.linksIn version := by
  rw [Std.ExtTreeMap.mem_iff_isSome_getElem?, getElem?_settle, mem_linksIn,
    survivor?, history?]
  cases graph.edges[link]? with
  | none => simp
  | some edge =>
      cases shown : edge.history.visible version <;> simp [Option.filter, shown]

/-- How edges are numbered from a graph on. -/
structure NumbersEdges
    (graph : Graph)
    (operations : List Operation) : Prop where
  /-- The edges that come into the table get ascending numbers. -/
  ascending : (graph.newNumbers operations).Pairwise (· < ·)
  /-- The number that adding an edge gives is the number of this edge for
  good. -/
  keeps {link : Link} {values : List (PropertyId × Value)} {id : EdgeId}
    {next : Graph}
    (added : graph.addEdge link values = .ok (id, next)) :
      next.KeepsNumber link id operations
  /-- No step of a batch drops an edge from the table. -/
  staged {link : Link} (present : link ∈ graph.edges) (step : BatchStep) :
    link ∈ (graph.stage step).edges
  committed (link : Link) : link ∈ graph.commit.2.edges ↔
    link ∈ graph.linksIn .merged
  rolledBack (link : Link) : link ∈ graph.rollback.2.edges ↔
    link ∈ graph.linksIn .permanent

/-- Edges keep their numbers, and numbers are not used again, over whole
runs. -/
theorem numbers_edges {graph : Graph} (reachable : graph.Reachable)
    (operations : List Operation) : graph.NumbersEdges operations where
  ascending := graph.pairwise_newNumbers operations
  keeps {link values id next} added := by
    have nextReachable : next.Reachable := by
      rw [← operate_addEdge added]
      exact reachable.operate _
    exact nextReachable.sound.keepsNumber (number?_of_addEdge added) operations
      (nextReachable.operateAll operations).sound
  staged present step := mem_edges_stage reachable.sound step present
  committed _ := mem_edges_settle
  rolledBack _ := mem_edges_settle

/-- An edge that is removed and added again inside a batch keeps its number, and
gets another one after it was dropped. -/
theorem numbers_edges_of_toggled_edge :
    let link : Link := ⟨⟨1⟩, ⟨2⟩, .default⟩
    let toggle : List Operation :=
      [.commit, .stage (.removeEdge link), .stage (.addEdge link []), .commit]
    let drop : List Operation :=
      [.stage (.removeEdge link), .commit, .stage (.addEdge link []), .rollback,
        .stage (.addEdge link [])]
    let operations := .stage (.addEdge link []) :: (toggle ++ drop)
    empty.newNumbers operations = [⟨0⟩, ⟨1⟩, ⟨2⟩] ∧
      (empty.addEdge link []).map Prod.fst = .ok ⟨0⟩ ∧
      (empty.stage (.addEdge link [])).Tracks link toggle ∧
      empty.Reachable ∧ empty.NumbersEdges operations := by
  intro link toggle drop operations
  exact ⟨by decide +kernel, by rfl, by decide +kernel, .empty,
    numbers_edges .empty operations⟩

end Graph

end DeltaGraph
