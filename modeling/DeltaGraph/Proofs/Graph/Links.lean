import DeltaGraph.Proofs.Graph.Attempt
import DeltaGraph.Proofs.Graph.Sound
import Mathlib.Data.Finset.Basic
import Mathlib.Data.Finset.Dedup

/-!
# A batch as changes of a set

The edges that will be there once a batch is committed are those of the start of
the batch, changed one step after another: a step that adds an edge inserts its
link, one that removes an edge erases its link, and a refused step does nothing.
The history of an edge forgets most of these changes.  It tells whether the edge
was there at the start, whether the batch ever undid that, and whether the edge
is there now.
-/

namespace DeltaGraph

/-- A change of a set of links. -/
inductive LinkChange
  | insert (link : Link)
  | erase (link : Link)
  deriving DecidableEq

namespace LinkChange

/-- The link that is inserted or erased. -/
def link : LinkChange → Link
  | insert link => link
  | erase link => link

/-- The links after a change. -/
def apply (links : Finset Link) : LinkChange → Finset Link
  | insert link => Insert.insert link links
  | erase link => links.erase link

@[simp] theorem mem_apply_insert {links : Finset Link} {link other : Link} :
    other ∈ apply links (insert link) ↔ other = link ∨ other ∈ links :=
  Finset.mem_insert

@[simp] theorem mem_apply_erase {links : Finset Link} {link other : Link} :
    other ∈ apply links (erase link) ↔ other ≠ link ∧ other ∈ links :=
  Finset.mem_erase

/-- A change of one link leaves every other link in the set or out of it. -/
theorem mem_apply_of_ne
    {links : Finset Link}
    {change : LinkChange}
    {other : Link}
    (different : change.link ≠ other) :
    other ∈ apply links change ↔ other ∈ links := by
  cases change with
  | insert link => simp [LinkChange.link] at different; simp [Ne.symm different]
  | erase link => simp [LinkChange.link] at different; simp [Ne.symm different]

/-- The links after changes, one after another. -/
def applyAll (links : Finset Link) (changes : List LinkChange) : Finset Link :=
  changes.foldl apply links

/-- Changes one after the other are applied one after the other. -/
theorem applyAll_append (links : Finset Link) (changes more : List LinkChange) :
    applyAll links (changes ++ more) = applyAll (applyAll links changes) more :=
  List.foldl_append

@[simp] theorem applyAll_append_single
    (links : Finset Link)
    (changes : List LinkChange)
    (change : LinkChange) :
    applyAll links (changes ++ [change]) =
      apply (applyAll links changes) change :=
  applyAll_append links changes [change]

/-- The change that undoes whether a link was there at the start. -/
def undoing (start : Finset Link) (link : Link) : LinkChange :=
  if link ∈ start then erase link else insert link

/-- A link that no change undoes is there if it was there at the start. -/
theorem mem_applyAll_of_kept
    {start : Finset Link}
    {changes : List LinkChange}
    {link : Link}
    (kept : undoing start link ∉ changes) :
    link ∈ applyAll start changes ↔ link ∈ start := by
  induction changes using List.reverseRecOn with
  | nil => rfl
  | append_singleton changes change inductionHypothesis =>
      rw [List.mem_append, List.mem_singleton, not_or] at kept
      obtain ⟨keptBefore, different⟩ := kept
      rw [applyAll_append_single, ← inductionHypothesis keptBefore]
      have before := inductionHypothesis keptBefore
      cases change with
      | insert other =>
          rw [mem_apply_insert, or_iff_right_iff_imp]
          rintro rfl
          by_contra missing
          rw [before] at missing
          exact different (if_neg missing)
      | erase other =>
          rw [mem_apply_erase, and_iff_right_iff_imp]
          rintro present rfl
          exact different (if_pos (before.mp present))

end LinkChange

/-! ## Histories and changes -/

/-- The history of an edge, by whether it was there at the start, whether the
batch ever undid that, and whether it is there now. -/
def EdgeHistory.ofPresence? : (before undone now : Bool) → Option EdgeHistory
  | false, false, _ => none
  | true, false, _ => some .committed
  | false, true, true => some .added
  | false, true, false => some .addedThenRemoved
  | true, true, false => some .removed
  | true, true, true => some .removedThenAdded

/-- Whether an edge belongs to a version, told in the same way. -/
def Version.holds (before undone now : Prop) : Version → Prop
  | permanent => before
  | additions => undone ∧ (before → now)
  | removals => undone ∧ (now → before)
  | merged => now

/-- An edge is visible in a version exactly when the version counts its presence
so. -/
theorem EdgeHistory.visible_ofPresence? {before undone now : Bool}
    (kept : undone = false → now = before) (version : Version) :
    (ofPresence? before undone now).any (·.visible version) = true ↔
      version.holds (before = true) (undone = true) (now = true) := by
  revert kept
  cases version <;> revert before undone now <;> simp only [Version.holds] <;>
    decide

namespace LinkChange

/-- What a change makes of the history of the edge at its link. -/
def historyAfter : LinkChange → Option EdgeHistory → Option EdgeHistory
  | insert _, none => some .added
  | insert _, some history => some history.add
  | erase _, none => none
  | erase _, some history => some (history.remove?.getD history)

/-- After an insertion the edge is there, and an absence at the start is
undone. -/
theorem historyAfter_insert (link : Link) (before undone now : Bool) :
    (insert link).historyAfter (EdgeHistory.ofPresence? before undone now) =
      EdgeHistory.ofPresence? before (undone || !before) true := by
  cases before <;> cases undone <;> cases now <;> rfl

/-- After an erasure the edge is gone, and a presence at the start is undone. -/
theorem historyAfter_erase (link : Link) (before undone now : Bool) :
    (erase link).historyAfter (EdgeHistory.ofPresence? before undone now) =
      EdgeHistory.ofPresence? before (undone || before) false := by
  cases before <;> cases undone <;> cases now <;> rfl

/-- Whether the change inserts its link. -/
def isInsert : LinkChange → Bool
  | insert _ => true
  | erase _ => false

/-- An edge will be there after the batch if the last change of it inserted
it. -/
theorem visible_merged_historyAfter
    (change : LinkChange)
    (history? : Option EdgeHistory) :
    (change.historyAfter history?).any (·.visible .merged) =
      change.isInsert := by
  cases change <;> rcases history? with _ | history
  · rfl
  · cases history <;> rfl
  · rfl
  · cases history <;> rfl

/-- The history that changes of a set of committed edges give to an edge. -/
def history? (start : Finset Link) (changes : List LinkChange) (link : Link) :
    Option EdgeHistory :=
  EdgeHistory.ofPresence? (link ∈ start) (undoing start link ∈ changes)
    (link ∈ applyAll start changes)

/-- A change gives the edge at its link another history, and leaves those of the
other edges alone. -/
theorem history?_append (start : Finset Link) (changes : List LinkChange)
    (change : LinkChange) (other : Link) :
    history? start (changes ++ [change]) other =
      if change.link = other then
        change.historyAfter (history? start changes other)
      else history? start changes other := by
  simp only [history?, List.mem_append, List.mem_singleton,
    applyAll_append_single]
  split
  · rename_i same
    subst same
    cases change with
    | insert link =>
        rw [historyAfter_insert]
        by_cases before : link ∈ start <;>
            simp [undoing, before, LinkChange.link]
    | erase link =>
        rw [historyAfter_erase]
        by_cases before : link ∈ start <;>
            simp [undoing, before, LinkChange.link]
  · rename_i different
    have otherChange : undoing start other ≠ change := by
      rintro rfl
      unfold undoing at different
      split at different <;> exact different rfl
    simp only [otherChange, or_false, mem_apply_of_ne different]

end LinkChange

namespace Graph

/-- The links of the edges of a version. -/
def linksIn (graph : Graph) (version : Version) : Finset Link :=
  ((graph.edgesIn version).map Prod.fst).toFinset

/-- The history of the edge at a link. -/
def history? (graph : Graph) (link : Link) : Option EdgeHistory :=
  (graph.edges[link]?).map Edge.history

theorem mem_linksIn {graph : Graph} {version : Version} {link : Link} :
    link ∈ graph.linksIn version ↔
      (graph.history? link).any (·.visible version) = true := by
  simp only [linksIn, edgesIn, List.mem_toFinset, List.mem_map, List.mem_filter,
    Prod.exists, Std.ExtTreeMap.mem_toList_iff_getElem?_eq_some,
    exists_and_right, exists_eq_right, history?, Option.any_map,
    Option.any_eq_true]

end Graph

/-- The change of the set of edges that a step asks for. -/
def BatchStep.linkChange? : BatchStep → Option LinkChange
  | putVertex .. => none
  | addEdge link _ => some (.insert link)
  | removeEdge link => some (.erase link)

namespace Graph

/-- The change of the set of edges that a step makes, if it is not refused. -/
def linkChange? (graph : Graph) (step : BatchStep) : Option LinkChange :=
  (graph.attempt step).toOption.bind fun _ => step.linkChange?

/-- The changes of the set of edges that steps make one after another. -/
def linkChanges (graph : Graph) : List BatchStep → List LinkChange
  | [] => []
  | step :: rest =>
      (graph.linkChange? step).toList ++ (graph.stage step).linkChanges rest

/-- The changes that steps make are those of the first ones, then those of the
later ones on what the first ones left. -/
theorem linkChanges_append (graph : Graph) (steps more : List BatchStep) :
    graph.linkChanges (steps ++ more) =
      graph.linkChanges steps ++ (graph.stageAll steps).linkChanges more := by
  induction steps generalizing graph with
  | nil => rfl
  | cons step rest inductionHypothesis =>
      rw [List.cons_append, linkChanges, linkChanges, inductionHypothesis,
        List.append_assoc]
      rfl

/-- Writing an edge gives it the history of an added one. -/
theorem history?_writeEdge (graph : Graph) (link other : Link)
    (values : List (PropertyId × Value)) :
    (graph.writeEdge link values).2.history? other =
      if link = other then
        (LinkChange.insert link).historyAfter (graph.history? other)
      else graph.history? other := by
  rw [history?, getElem?_writeEdge]
  split
  · rename_i same
    subst same
    cases found : graph.edges[link]? <;>
      simp [history?, addedEdge, found, LinkChange.historyAfter]
  · rfl

/-- Removing an edge, if there is one to remove, gives it the history of a
removed one. -/
theorem history?_removeEdge? (graph : Graph) (link other : Link) :
    ((graph.removeEdge? link).getD graph).history? other =
      if link = other then
        (LinkChange.erase link).historyAfter (graph.history? other)
      else graph.history? other := by
  cases removal : graph.removeEdge? link with
  | none =>
      split
      · rename_i same
        subst same
        cases found : graph.edges[link]? with
        | none => simp [history?, found, LinkChange.historyAfter]
        | some edge =>
            have missing : edge.history.remove? = none := by
              cases removed : edge.history.remove? with
              | none => rfl
              | some next => simp [removeEdge?, found, removed] at removal
            simp [history?, found, LinkChange.historyAfter, missing]
      · rfl
  | some next =>
      obtain ⟨edge, history, found, removed, rfl⟩ := removeEdge?_eq_some removal
      by_cases same : link = other
      · subst same
        simp [history?, found, LinkChange.historyAfter, removed]
      · simp [history?, Std.ExtTreeMap.getElem?_insert, same]

theorem edges_putVertex
    {graph next : Graph}
    {vertex : VertexId}
    {type : Option TypeId}
    {values : List (PropertyId × Value)}
    (taken : graph.putVertex vertex type values = .ok next) :
    next.edges = graph.edges := by
  obtain ⟨_, _, rfl⟩ | ⟨_, rfl⟩ := putVertex_cases taken <;> rfl

/-- A step that is not refused moves the history of the edge that it changes. -/
theorem history?_attempt {graph next : Graph} {step : BatchStep}
    (taken : graph.attempt step = .ok next) (link : Link) :
    next.history? link =
      match step.linkChange? with
      | some change =>
          if change.link = link then change.historyAfter (graph.history? link)
          else graph.history? link
      | none => graph.history? link := by
  cases step with
  | putVertex vertex type values =>
      rw [history?, edges_putVertex taken]
      rfl
  | addEdge added values =>
      rw [eq_of_attempt_addEdge taken, history?_writeEdge]
      simp only [history?, ensureVertex_edges]
      rfl
  | removeEdge removed =>
      cases taken
      exact graph.history?_removeEdge? removed link

/-- Between batches an edge is committed if it is there. -/
theorem Sound.history?_of_quiet {graph : Graph} (sound : graph.Sound)
    (quiet : graph.isPending = false) (link : Link) :
    graph.history? link =
      LinkChange.history? (graph.linksIn .permanent) [] link := by
  have member := @mem_linksIn graph .permanent link
  have plain (edge : Edge) (found : graph.edges[link]? = some edge) :
      edge.history = .committed :=
    sound.untouched found (by simp [isPending_eq_false_iff.mp quiet])
  simp only [LinkChange.history?, LinkChange.applyAll, List.not_mem_nil,
    decide_false, List.foldl_nil, member, history?]
  cases found : graph.edges[link]? with
  | none => rfl
  | some edge =>
      rw [Option.map_some, plain edge found]
      rfl

/-- While a batch is staged, the changes that it makes tell the history of every
edge. -/
theorem Sound.history?_stageAll {graph : Graph} (sound : graph.Sound)
    (quiet : graph.isPending = false) (steps : List BatchStep) (link : Link) :
    (graph.stageAll steps).history? link =
      LinkChange.history? (graph.linksIn .permanent) (graph.linkChanges steps)
        link := by
  induction steps using List.reverseRecOn with
  | nil => exact sound.history?_of_quiet quiet link
  | append_singleton steps step inductionHypothesis =>
      rw [stageAll_append, linkChanges_append]
      have last :
          (graph.stageAll steps).stageAll [step] =
            (graph.stageAll steps).stage step := rfl
      have lastChange : (graph.stageAll steps).linkChanges [step] =
          ((graph.stageAll steps).linkChange? step).toList := List.append_nil _
      rw [last, lastChange]
      cases taken : (graph.stageAll steps).attempt step with
      | error error =>
          rw [stage_of_refused taken, inductionHypothesis, linkChange?, taken]
          simp [Except.toOption]
      | ok next =>
          rw [stage_of_attempt taken, history?_attempt taken, linkChange?,
            taken]
          cases step.linkChange? with
          | none => simpa [Except.toOption] using inductionHypothesis
          | some change =>
              simp [Except.toOption, LinkChange.history?_append,
                inductionHypothesis]

/-- While a batch is staged, the changes that it makes tell which edges belong
to each version. -/
theorem Sound.mem_linksIn_stageAll
    {graph : Graph}
    (sound : graph.Sound)
    (quiet : graph.isPending = false)
    (steps : List BatchStep)
    (version : Version)
    (link : Link) :
    link ∈ (graph.stageAll steps).linksIn version ↔
      version.holds (link ∈ graph.linksIn .permanent)
        (.undoing (graph.linksIn .permanent) link ∈ graph.linkChanges steps)
        (link ∈
          LinkChange.applyAll (graph.linksIn .permanent)
            (graph.linkChanges steps)) := by
  have kept := @LinkChange.mem_applyAll_of_kept (graph.linksIn .permanent)
    (graph.linkChanges steps) link
  rw [mem_linksIn, sound.history?_stageAll quiet, LinkChange.history?,
    EdgeHistory.visible_ofPresence?]
  · simp only [decide_eq_true_eq]
  · intro untouched
    exact decide_eq_decide.mpr (kept (of_decide_eq_false untouched))

/-- A commit makes the edges of the merged version the committed ones. -/
theorem linksIn_commit (graph : Graph) :
    graph.commit.2.linksIn .permanent = graph.linksIn .merged := by
  ext link
  have kept : graph.commit.2.edges[link]? = graph.survivor? .merged link :=
    getElem?_settle graph .merged link
  rw [mem_linksIn, mem_linksIn, history?, history?, kept, survivor?]
  cases graph.edges[link]? with
  | none => rfl
  | some edge =>
      have plain : EdgeHistory.committed.visible .permanent = true := rfl
      cases shown : edge.history.visible .merged <;>
        simp [Option.filter, shown, plain]

/-- There is an edge to remove exactly if it belongs to the merged version. -/
theorem isSome_removeEdge?_iff {graph : Graph} {link : Link} :
    (graph.removeEdge? link).isSome = true ↔ link ∈ graph.linksIn .merged := by
  rw [mem_linksIn, history?]
  cases found : graph.edges[link]? with
  | none => simp [removeEdge?, found]
  | some edge =>
      rw [Option.map_some, Option.any_some, ← EdgeHistory.isSome_remove?]
      cases removed : edge.history.remove? <;>
        simp [removeEdge?, found, removed]

/-- A step that is not refused makes its change of the set of edges. -/
theorem linksIn_merged_of_attempt {graph next : Graph} {step : BatchStep}
    (taken : graph.attempt step = .ok next) :
    next.linksIn .merged =
      LinkChange.applyAll (graph.linksIn .merged) step.linkChange?.toList := by
  ext link
  rw [mem_linksIn, history?_attempt taken]
  cases step.linkChange? with
  | none => exact mem_linksIn.symm
  | some change =>
      have single :
          LinkChange.applyAll (graph.linksIn .merged) (some change).toList =
            LinkChange.apply (graph.linksIn .merged) change := rfl
      by_cases same : change.link = link
      · subst same
        simp only [single, if_true, LinkChange.visible_merged_historyAfter]
        cases change <;> simp [LinkChange.isInsert, LinkChange.link]
      · simp only [single, if_neg same, LinkChange.mem_apply_of_ne same,
          mem_linksIn]

/-- The merged links after accepted steps are those before them with the changes
of the steps applied. -/
theorem linksIn_merged_stageAll {graph : Graph} {steps : List BatchStep}
    (accepted : graph.Accepts steps) :
    (graph.stageAll steps).linksIn .merged =
      LinkChange.applyAll (graph.linksIn .merged)
        (steps.filterMap BatchStep.linkChange?) := by
  induction steps generalizing graph with
  | nil => rfl
  | cons step rest inductionHypothesis =>
      obtain ⟨⟨next, taken⟩, acceptedRest⟩ := accepted
      have later := inductionHypothesis acceptedRest
      rw [stage_of_attempt taken, linksIn_merged_of_attempt taken,
        ← LinkChange.applyAll_append] at later
      have whole : graph.stageAll (step :: rest) = next.stageAll rest := by
        rw [← stage_of_attempt taken]
        rfl
      rw [whole, later]
      cases change : step.linkChange? <;> simp [change]

/-- Staging steps does to the edges what the changes of a set do. -/
structure StagesAsSet (graph : Graph) (steps : List BatchStep) : Prop where
  permanent :
    (graph.stageAll steps).linksIn .permanent = graph.linksIn .permanent
  merged : (graph.stageAll steps).linksIn .merged =
    LinkChange.applyAll (graph.linksIn .permanent) (graph.linkChanges steps)
  /-- There is an edge to remove exactly if it is in the set as changed so
  far. -/
  removeEdge? (link : Link) :
    ((graph.stageAll steps).removeEdge? link).isSome = true ↔
      link ∈
        LinkChange.applyAll (graph.linksIn .permanent) (graph.linkChanges steps)
  /-- A refused step does nothing to the edges. -/
  refused (step : BatchStep) (error : Error) :
    (graph.stageAll steps).attempt step = .error error →
      (graph.stageAll (steps ++ [step])).edges = (graph.stageAll steps).edges
  gained :
    (graph.stageAll steps).linksIn .additions \
      (graph.stageAll steps).linksIn .removals =
      (graph.stageAll steps).linksIn .merged \
        (graph.stageAll steps).linksIn .permanent
  lost :
    (graph.stageAll steps).linksIn .removals \
      (graph.stageAll steps).linksIn .additions =
      (graph.stageAll steps).linksIn .permanent \
        (graph.stageAll steps).linksIn .merged
  /-- In both difference versions are the edges that are there now exactly if
  they were there at the start, although the batch undid that. -/
  toggled (link : Link) :
    link ∈
      (graph.stageAll steps).linksIn .additions ∩
        (graph.stageAll steps).linksIn .removals ↔
      (link ∈ (graph.stageAll steps).linksIn .merged ↔
        link ∈ graph.linksIn .permanent) ∧
        if link ∈ graph.linksIn .permanent then
          .erase link ∈ graph.linkChanges steps
        else .insert link ∈ graph.linkChanges steps

theorem Sound.stagesAsSet
    {graph : Graph}
    (sound : graph.Sound)
    (quiet : graph.isPending = false)
    (steps : List BatchStep) :
    graph.StagesAsSet steps := by
  have member := sound.mem_linksIn_stageAll quiet steps
  have kept (link : Link) :=
    @LinkChange.mem_applyAll_of_kept (graph.linksIn .permanent)
    (graph.linkChanges steps) link
  constructor
  case permanent => exact Finset.ext (member .permanent)
  case merged => exact Finset.ext (member .merged)
  case removeEdge? =>
    exact fun link => isSome_removeEdge?_iff.trans (member .merged link)
  case refused =>
    intro step error refused
    rw [stageAll_append]
    exact congrArg Graph.edges (stage_of_refused refused)
  case gained =>
    ext link
    simp only [Finset.mem_sdiff, member, Version.holds]
    have same := kept link
    tauto
  case lost =>
    ext link
    simp only [Finset.mem_sdiff, member, Version.holds]
    have same := kept link
    tauto
  case toggled =>
    intro link
    have undone :
        LinkChange.undoing (graph.linksIn .permanent) link ∈
          graph.linkChanges steps ↔
          if link ∈ graph.linksIn .permanent then
            .erase link ∈ graph.linkChanges steps
          else .insert link ∈ graph.linkChanges steps := by
      unfold LinkChange.undoing
      split <;> rfl
    simp only [Finset.mem_inter, member, Version.holds, ← undone]
    tauto

end Graph

end DeltaGraph
