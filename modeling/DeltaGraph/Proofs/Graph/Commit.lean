import DeltaGraph.Proofs.Graph.Links
import DeltaGraph.Proofs.Graph.Rollback
import DeltaGraph.Proofs.Graph.Walk
import Mathlib.Data.Finset.Card

/-!
# What a batch changes

The edges that a commit counts, those that come and those that go, are among
the edges that the batch touched.  A batch that touched no edge ends without a
change of the edges.
-/

namespace DeltaGraph

/-- No key occurs twice among the entries of a map that pass a test. -/
theorem nodup_keys_filter {κ α : Type} [Ord κ] [Std.TransOrd κ]
    [Std.LawfulEqOrd κ] (map : Std.ExtTreeMap κ α) (test : κ × α → Bool) :
    ((map.toList.filter test).map Prod.fst).Nodup := by
  have keys : (map.toList.map Prod.fst).Nodup := by
    rw [Std.ExtTreeMap.map_fst_toList_eq_keys]
    exact Std.ExtTreeMap.nodup_keys
  exact keys.sublist (List.filter_sublist.map _)

namespace Graph

/-- The edges of a version that another one lacks are counted. -/
theorem countChanged_eq_card (graph : Graph) (version other : Version) :
    graph.countChanged version other =
      (graph.linksIn version \ graph.linksIn other).card := by
  have links : graph.linksIn version \ graph.linksIn other =
      ((graph.edges.toList.filter fun entry =>
        !entry.2.history.visible other && entry.2.history.visible version).map
          Prod.fst).toFinset := by
    ext link
    simp only [Finset.mem_sdiff, mem_linksIn, history?, Option.any_map,
      List.mem_toFinset, List.mem_map, List.mem_filter, Prod.exists,
      exists_and_right, exists_eq_right,
      Std.ExtTreeMap.mem_toList_iff_getElem?_eq_some]
    cases graph.edges[link]? with
    | none => simp
    | some edge => simp [and_comm]
  rw [links, List.toFinset_card_of_nodup (nodup_keys_filter _ _),
    List.length_map, countChanged, edgesIn, List.countP_eq_length_filter,
    List.filter_filter]

/-- The batch has touched the edges that one version has and the other lacks. -/
theorem Sound.mem_batch_of_changed
    {graph : Graph}
    (sound : graph.Sound)
    {link : Link}
    (changed :
      ¬ (link ∈ graph.linksIn .merged ↔ link ∈ graph.linksIn .permanent)) :
    link ∈ graph.batch := by
  by_contra untouched
  refine changed ?_
  rw [mem_linksIn, mem_linksIn, history?]
  cases found : graph.edges[link]? with
  | none => rfl
  | some edge =>
      rw [Option.map_some, Option.any_some, Option.any_some,
        sound.untouched found untouched]
      rfl

/-- Every reachable graph is in the middle of a batch. -/
theorem Reachable.exists_steps {graph : Graph} (reachable : graph.Reachable) :
    ∃ (start : Graph) (steps : List BatchStep), start.Settled ∧
      start.stageAll steps = graph := by
  induction reachable with
  | empty => exact ⟨_, [], .empty, rfl⟩
  | stage step _ inductionHypothesis =>
      obtain ⟨start, steps, settled, rfl⟩ := inductionHypothesis
      exact ⟨start, steps ++ [step], settled,
        start.stageAll_append steps [step]⟩
  | commit reachable _ => exact ⟨_, [], .commit reachable, rfl⟩
  | rollback reachable _ => exact ⟨_, [], .rollback reachable, rfl⟩

/-- Ending a batch that touched no edge only drops the list of the vertices that
the batch created. -/
theorem settle_of_quiet
    {graph : Graph}
    (sound : graph.Sound)
    (quiet : graph.batch = ∅)
    {version : Version}
    (shown : EdgeHistory.committed.visible version = true) :
    graph.settle (·.visible version) = { graph with created := ∅ } := by
  have edges : (graph.settle (·.visible version)).edges = graph.edges := by
    refine Std.ExtTreeMap.ext_getElem? fun link => ?_
    rw [getElem?_settle, survivor?_of_batch_eq_empty sound quiet shown]
  have links : (graph.settle (·.visible version)).links = graph.links := by
    refine Std.ExtTreeMap.ext_getElem? fun id => Option.ext fun link => ?_
    rw [(sound.settle version).links_iff, sound.links_iff, edges]
  calc graph.settle (·.visible version)
    _ = { graph with
          edges := (graph.settle (·.visible version)).edges
          links := (graph.settle (·.visible version)).links
          batch := ∅
          created := ∅ } := rfl
    _ = { graph with created := ∅ } := by rw [edges, links, ← quiet]

/-- The promoted and the removed edges are different ones, and the batch touched
them all. -/
theorem Sound.card_changed_le {graph : Graph} (sound : graph.Sound) :
    (graph.linksIn .merged \ graph.linksIn .permanent).card +
      (graph.linksIn .permanent \ graph.linksIn .merged).card ≤
        graph.batch.size := by
  rw [← Finset.card_union_of_disjoint disjoint_sdiff_sdiff, ←
    Std.ExtTreeSet.length_toList]
  refine (Finset.card_le_card ?_).trans (List.toFinset_card_le _)
  intro link changed
  rw [List.mem_toFinset, Std.ExtTreeSet.mem_toList]
  refine sound.mem_batch_of_changed fun same => ?_
  simp only [Finset.mem_union, Finset.mem_sdiff] at changed
  tauto

end Graph

end DeltaGraph
