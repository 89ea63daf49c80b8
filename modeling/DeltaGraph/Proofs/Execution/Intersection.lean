import DeltaGraph.Execution.Pipeline
import DeltaGraph.Proofs.Execution.NestedLoops

/-!
# Intersecting in any order

The lists of neighbors that the rules of a stage read are intersected two by
two, the shortest ones first.  As they all ascend, this comes to the vertices
that are in every list, in ascending order, and the order of the rules does not
matter.
-/

namespace DeltaGraph

/-! ## Two lists -/

/-- A vertex before all members of one list may be passed over in the other. -/
theorem mem_both_of_lt
    {left right vertex : VertexId}
    {lefts rights : List VertexId}
    (ascending : (right :: rights).Pairwise (· < ·))
    (less : left < right) :
    vertex ∈ left :: lefts ∧ vertex ∈ right :: rights ↔
      vertex ∈ lefts ∧ vertex ∈ right :: rights := by
  have missing : left ∉ right :: rights := by
    intro member
    rcases List.mem_cons.mp member with rfl | later
    · exact Nat.lt_irrefl _ less
    · exact Nat.lt_asymm less ((List.pairwise_cons.mp ascending).1 left later)
  constructor
  · rintro ⟨found, member⟩
    rcases List.mem_cons.mp found with rfl | later
    · exact absurd member missing
    · exact ⟨later, member⟩
  · rintro ⟨later, member⟩
    exact ⟨.tail _ later, member⟩

theorem sublist_mergeCommon (lefts rights : List VertexId) :
    (mergeCommon lefts rights).Sublist lefts := by
  fun_induction mergeCommon lefts rights with
  | case1 left lefts right rights order inductionHypothesis =>
      exact inductionHypothesis.cons left
  | case2 left lefts right rights order inductionHypothesis =>
      exact inductionHypothesis
  | case3 left lefts right rights order inductionHypothesis =>
      exact inductionHypothesis.cons_cons left
  | case4 lefts rights ended => exact List.nil_sublist lefts

/-- Reading two ascending lists side by side finds their common members: what is
passed over in one list is smaller than all that is left of the other. -/
theorem mem_mergeCommon
    {lefts rights : List VertexId}
    (leftsAscending : lefts.Pairwise (· < ·))
    (rightsAscending : rights.Pairwise (· < ·))
    {vertex : VertexId} :
    vertex ∈ mergeCommon lefts rights ↔ vertex ∈ lefts ∧ vertex ∈ rights := by
  fun_induction mergeCommon lefts rights with
  | case1 left lefts right rights order inductionHypothesis =>
      have less : left < right := by
        rwa [Id.compare_def, Nat.compare_eq_lt] at order
      rw [inductionHypothesis leftsAscending.of_cons rightsAscending,
        mem_both_of_lt rightsAscending less]
  | case2 left lefts right rights order inductionHypothesis =>
      have less : right < left := by
        rwa [Id.compare_def, Nat.compare_eq_gt] at order
      rw [inductionHypothesis leftsAscending rightsAscending.of_cons, and_comm,
        ← mem_both_of_lt leftsAscending less, and_comm]
  | case3 left lefts right rights order inductionHypothesis =>
      obtain rfl : left = right := Std.LawfulEqOrd.eq_of_compare order
      rw [List.mem_cons, List.mem_cons, List.mem_cons,
        inductionHypothesis leftsAscending.of_cons rightsAscending.of_cons,
        or_and_left]
  | case4 lefts rights ended =>
      -- One of the lists has come to its end.
      cases lefts with
      | nil => simp
      | cons left lefts =>
          cases rights with
          | nil => simp
          | cons right rights =>
              exact absurd rfl (ended left lefts right rights rfl)

/-- Reading two ascending lists side by side comes to the same as looking for
each member of the first in the second. -/
theorem mergeCommon_eq
    {lefts rights : List VertexId}
    (leftsAscending : lefts.Pairwise (· < ·))
    (rightsAscending : rights.Pairwise (· < ·)) :
    mergeCommon lefts rights = intersectAscending lefts rights := by
  refine List.Pairwise.eq_of_mem_iff
    (leftsAscending.sublist (sublist_mergeCommon _ _))
    (leftsAscending.sublist (sublist_intersectAscending _ _)) fun vertex => ?_
  rw [mem_mergeCommon leftsAscending rightsAscending,
    mem_intersectAscending leftsAscending rightsAscending]

/-! ## Several lists -/

theorem intersectAll_eq_foldl
    {common : List VertexId}
    {lists : List (List VertexId)}
    (commonAscending : common.Pairwise (· < ·))
    (ascending : ∀ list ∈ lists, list.Pairwise (· < ·)) :
    intersectAll common lists = lists.foldl intersectAscending common := by
  induction lists generalizing common with
  | nil => rfl
  | cons first rest inductionHypothesis =>
      obtain ⟨firstAscending, restAscending⟩ :=
        List.forall_mem_cons.mp ascending
      rw [intersectAll, mergeCommon_eq commonAscending firstAscending,
        List.foldl_cons]
      split
      · rename_i empty
        rw [empty, foldl_intersectAscending_nil]
      · exact inductionHypothesis
          (commonAscending.sublist (sublist_intersectAscending _ _))
          restAscending

namespace Stage

variable {walkable : WalkableGraph} {bound : List VertexId}

/-- The lists are gathered unless one of them is empty. -/
theorem gather_eq_readLists (stage : Stage) :
    stage.gather walkable bound =
      (stage.readLists walkable bound).map fun lists =>
        if [] ∈ lists then none else some lists := by
  induction stage with
  | nil => rfl
  | cons rule rest inductionHypothesis =>
      rw [gather, readLists_cons, inductionHypothesis]
      match rule.neighbors walkable bound with
      | .error error => rfl
      | .ok [] => simp [Except.map]
      | .ok (first :: others) =>
          cases readLists walkable bound rest with
          | error error => rfl
          | ok lists => by_cases empty : [] ∈ lists <;> simp [Except.map, empty]

/-- Intersecting ascending lists comes to the same in every order. -/
theorem intersectInTurn_perm
    {lists others : List (List VertexId)}
    (ascending : ∀ list ∈ lists, list.Pairwise (· < ·))
    (same : lists.Perm others) :
    intersectInTurn lists = intersectInTurn others := by
  have othersAscending : ∀ list ∈ others, list.Pairwise (· < ·) :=
    fun list member =>
      ascending list (same.mem_iff.mpr member)
  refine List.Pairwise.eq_of_mem_iff (pairwise_intersectInTurn ascending)
    (pairwise_intersectInTurn othersAscending) fun vertex => ?_
  have empty : lists = [] ↔ others = [] := by
    rw [← List.length_eq_zero_iff, same.length_eq, List.length_eq_zero_iff]
  simp only [mem_intersectInTurn ascending, mem_intersectInTurn othersAscending,
    same.mem_iff, ne_eq, empty]

theorem intersectInTurn_eq_nil {lists : List (List VertexId)}
    (ascending : ∀ list ∈ lists, list.Pairwise (· < ·)) (empty : [] ∈ lists) :
    intersectInTurn lists = [] := by
  refine List.eq_nil_iff_forall_not_mem.mpr fun vertex member => ?_
  cases ((mem_intersectInTurn ascending).mp member).2 [] empty

/-- The order in which lists are intersected does not matter. -/
theorem shortestFirst_eq_intersection (stage : Stage) :
    stage.shortestFirst walkable bound = stage.intersection walkable bound := by
  rw [shortestFirst, gather_eq_readLists, intersection_eq_readLists]
  cases read : stage.readLists walkable bound with
  | error error => rfl
  | ok lists =>
      have ascending := pairwise_of_mem_readLists read
      by_cases empty : [] ∈ lists
      · simp [Except.map, empty, intersectInTurn_eq_nil ascending empty]
      · have sorted := List.mergeSort_perm lists (·.length ≤ ·.length)
        simp only [Except.map, empty, if_false]
        rw [intersectInTurn_perm ascending sorted.symm]
        split
        · rename_i nothing
          rw [nothing, intersectInTurn]
        · rename_i shortest rest found
          have sortedAscending :
              ∀ list ∈ shortest :: rest, list.Pairwise (· < ·) :=
            fun list member =>
              ascending list (sorted.mem_iff.mp (found ▸ member))
          obtain ⟨shortestAscending, restAscending⟩ :=
            List.forall_mem_cons.mp sortedAscending
          rw [found, intersectInTurn,
            intersectAll_eq_foldl shortestAscending restAscending]

/-- Behind bound vertices, the rules of a stage admit the vertices that are in
every list of neighbors, in ascending order, whichever rule comes first. -/
theorem intersects_in_any_order
    (graph : Graph)
    {stage : Stage}
    (nonempty : stage ≠ [])
    {bound : List VertexId}
    (inside : ∀ rule ∈ stage, rule.slot < bound.length) :
    ∃ admitted, stage.shortestFirst graph.walkable bound = .ok admitted ∧
      stage.intersection graph.walkable bound = .ok admitted ∧
      admitted.Pairwise (· < ·) ∧
      (∀ vertex, vertex ∈ admitted ↔
        ∀ rule ∈ stage, rule.Admits graph bound vertex) ∧
      ∀ other : Stage, other.Perm stage →
        other.shortestFirst graph.walkable bound = .ok admitted := by
  obtain ⟨admitted, found, ascending, member⟩ :=
    intersection_eq graph nonempty inside
  refine ⟨admitted, (stage.shortestFirst_eq_intersection).trans found, found,
    ascending, member, fun other same => ?_⟩
  have otherNonempty : other ≠ [] := by
    rintro rfl
    exact nonempty same.nil_eq.symm
  have otherInside : ∀ rule ∈ other, rule.slot < bound.length :=
    fun rule among =>
      inside rule (same.mem_iff.mp among)
  obtain ⟨others, otherFound, otherAscending, otherMember⟩ :=
    intersection_eq graph otherNonempty otherInside
  have equal : others = admitted := by
    refine List.Pairwise.eq_of_mem_iff otherAscending ascending fun vertex => ?_
    rw [otherMember, member]
    exact forall_congr' fun rule => imp_congr_left same.mem_iff
  rw [shortestFirst_eq_intersection, otherFound, equal]

/-- During a batch, two variables are bound, and the rules read three versions,
both directions and one type. -/
theorem intersects_in_any_order_during_batch :
    let graph := (((((Graph.empty.stage (.addEdge ⟨⟨1⟩, ⟨3⟩, ⟨1⟩⟩ [])).stage
      (.addEdge ⟨⟨1⟩, ⟨4⟩, ⟨1⟩⟩ [])).stage
      (.addEdge ⟨⟨1⟩, ⟨5⟩, ⟨2⟩⟩ [])).commit.2.stage
      (.addEdge ⟨⟨5⟩, ⟨2⟩, ⟨1⟩⟩ [])).stage (.addEdge ⟨⟨3⟩, ⟨2⟩, ⟨2⟩⟩ []))
    let stage : Stage :=
      [⟨0, .forward, .merged, none⟩, ⟨1, .backward, .additions, none⟩,
        ⟨0, .forward, .permanent, some ⟨1⟩⟩]
    stage ≠ [] ∧ (∀ rule ∈ stage, rule.slot < [(⟨1⟩ : VertexId), ⟨2⟩].length) ∧
      stage.shortestFirst graph.walkable [⟨1⟩, ⟨2⟩] = .ok [⟨3⟩] ∧
      shortestFirst stage.reverse graph.walkable [⟨1⟩, ⟨2⟩] = .ok [⟨3⟩] := by
  intro graph stage
  have nonempty : stage ≠ [] := List.cons_ne_nil _ _
  have inside : ∀ rule ∈ stage, rule.slot < [(⟨1⟩ : VertexId), ⟨2⟩].length := by
    decide
  obtain ⟨admitted, sorted, found, _, _, permuted⟩ :=
    intersects_in_any_order graph nonempty inside
  have common : stage.intersection graph.walkable [⟨1⟩, ⟨2⟩] = .ok [⟨3⟩] := by
    decide +kernel
  have same : admitted = [⟨3⟩] := Except.ok.inj (found.symm.trans common)
  exact ⟨nonempty, inside, same ▸ sorted,
    same ▸ permuted _ (List.reverse_perm stage)⟩

end Stage

end DeltaGraph
