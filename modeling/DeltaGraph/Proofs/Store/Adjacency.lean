import DeltaGraph.Proofs.Lists
import DeltaGraph.Store.Adjacency
import Mathlib.Data.List.Basic

/-!
# Adjacency lists in order

Halving finds places in a list that ascends, and putting entries in and taking
them out keeps the list ascending.  What a list holds is told by its entries
alone: at most one for each neighbor and type.
-/

namespace DeltaGraph

/-- Halving finds the place up to which a test holds. -/
theorem bisect_eq {test : Nat → Bool} {bound low high : Nat}
    (holds : ∀ place, test place = true ↔ place < bound)
    (above : low ≤ bound) (below : bound ≤ high) :
    bisect test low high = bound := by
  fun_induction bisect test low high with
  | case1 low high _ middle passes inductionHypothesis =>
      exact inductionHypothesis ((holds middle).mp passes) below
  | case2 low high _ middle fails inductionHypothesis =>
      have notBelow : ¬ middle < bound := fun less =>
        fails ((holds middle).mpr less)
      exact inductionHypothesis above (Nat.le_of_not_lt notBelow)
  | case3 low high closed => omega

namespace Adjacent

theorem isFor_iff {entry : Adjacent} {neighbor : VertexId} {type : TypeId} :
    entry.isFor neighbor type = true ↔
      entry.neighbor = neighbor ∧ entry.type = type := by
  simp [isFor]

/-- The order of entries, in numbers. -/
theorem isBefore_iff {entry : Adjacent} {neighbor : VertexId}
    {type : TypeId} :
    entry.isBefore neighbor type = true ↔
      entry.neighbor.number < neighbor.number ∨
        entry.neighbor.number = neighbor.number ∧
          entry.type.number < type.number := by
  simp [isBefore, Id.lt_def, Id.ext_iff]

/-- Entries are ordered by their neighbors and then by their types. -/
def Precedes (entry later : Adjacent) : Prop :=
  entry.isBefore later.neighbor later.type = true

/-- The entry comes after the one for a neighbor and a type. -/
def IsAfter (entry : Adjacent) (neighbor : VertexId) (type : TypeId) : Prop :=
  neighbor.number < entry.neighbor.number ∨
    neighbor.number = entry.neighbor.number ∧ type.number < entry.type.number

/-- Entries are compared with the one for a neighbor and a type. -/
theorem isBefore_or_isFor_or_isAfter (entry : Adjacent) (neighbor : VertexId)
    (type : TypeId) :
    entry.isBefore neighbor type = true ∨
      entry.isFor neighbor type = true ∨ entry.IsAfter neighbor type := by
  simp only [isBefore_iff, isFor_iff, IsAfter, Id.ext_iff]
  omega

theorem IsAfter.isBefore_eq_false {entry : Adjacent} {neighbor : VertexId}
    {type : TypeId} (above : entry.IsAfter neighbor type) :
    entry.isBefore neighbor type = false := by
  rw [Bool.eq_false_iff, ne_eq, isBefore_iff]
  unfold IsAfter at above
  omega

theorem IsAfter.isFor_eq_false {entry : Adjacent} {neighbor : VertexId}
    {type : TypeId} (above : entry.IsAfter neighbor type) :
    entry.isFor neighbor type = false := by
  rw [Bool.eq_false_iff, ne_eq, isFor_iff, Id.ext_iff, Id.ext_iff]
  unfold IsAfter at above
  omega

theorem IsAfter.of_precedes {entry later : Adjacent} {neighbor : VertexId}
    {type : TypeId} (above : entry.IsAfter neighbor type)
    (precedes : entry.Precedes later) : later.IsAfter neighbor type := by
  rw [Precedes, isBefore_iff] at precedes
  unfold IsAfter at *
  omega

/-- An entry is not before the one that it is. -/
theorem isBefore_eq_false_of_isFor {entry : Adjacent} {neighbor : VertexId}
    {type : TypeId} (same : entry.isFor neighbor type = true) :
    entry.isBefore neighbor type = false := by
  rw [isFor_iff, Id.ext_iff, Id.ext_iff] at same
  rw [Bool.eq_false_iff, ne_eq, isBefore_iff]
  omega

end Adjacent

/-- An item is put behind the first part of a list. -/
theorem insertIdx_length {α : Type} (before after : List α) (item : α) :
    (before ++ after).insertIdx before.length item = before ++ item :: after :=
  by
  induction before with
  | nil => rfl
  | cons first rest inductionHypothesis =>
      exact congrArg (first :: ·) inductionHypothesis

namespace AdjacencyList

variable {list : AdjacencyList}

/-- The entries are in order, and there is only one for each neighbor and
type. -/
def Ascending (list : AdjacencyList) : Prop :=
  list.entries.toList.Pairwise Adjacent.Precedes

/-! ## Places -/

/-- The first place that fails a test is at the end of the entries that
pass it. -/
theorem partitionPoint_eq {test : Adjacent → Bool}
    {before after : List Adjacent}
    (split : list.entries.toList = before ++ after)
    (passes : ∀ entry ∈ before, test entry = true)
    (fails : ∀ entry ∈ after, test entry = false) :
    list.partitionPoint test = before.length := by
  refine bisect_eq (fun place => ?_) (Nat.zero_le _) ?_
  · rw [← Array.getElem?_toList, split]
    by_cases inside : place < before.length
    · rw [List.getElem?_append_left inside,
        List.getElem?_eq_getElem inside]
      exact iff_of_true (passes _ (List.getElem_mem inside)) inside
    · rw [List.getElem?_append_right (Nat.le_of_not_lt inside)]
      refine iff_of_false ?_ inside
      rw [Option.any_eq_true]
      rintro ⟨entry, found, pass⟩
      rw [fails entry (List.mem_of_getElem? found)] at pass
      cases pass
  · rw [← Array.length_toList, split, List.length_append]
    exact Nat.le_add_right _ _

/-- A list that is split at the place for a neighbor and a type. -/
structure SplitAt (list : AdjacencyList) (neighbor : VertexId) (type : TypeId)
    (before : List Adjacent) (here : Option Adjacent)
    (after : List Adjacent) : Prop where
  entries : list.entries.toList = before ++ (here.toList ++ after)
  before : ∀ entry ∈ before, entry.isBefore neighbor type = true
  here : ∀ entry ∈ here, entry.isFor neighbor type = true
  after : ∀ entry ∈ after, entry.IsAfter neighbor type

/-- A list that ascends can be split anywhere. -/
theorem Ascending.exists_splitAt (ascending : list.Ascending)
    (neighbor : VertexId) (type : TypeId) :
    ∃ before here after, list.SplitAt neighbor type before here after := by
  obtain ⟨⟨entries⟩⟩ := list
  change entries.Pairwise Adjacent.Precedes at ascending
  induction entries with
  | nil => exact ⟨[], none, [], rfl, by simp, by simp, by simp⟩
  | cons first rest inductionHypothesis =>
      obtain ⟨later, restAscending⟩ := List.pairwise_cons.mp ascending
      rcases first.isBefore_or_isFor_or_isAfter neighbor type with
        less | same | greater
      · obtain ⟨before, here, after, split⟩ :=
          inductionHypothesis restAscending
        refine ⟨first :: before, here, after,
          congrArg (first :: ·) split.entries, ?_, split.here, split.after⟩
        exact List.forall_mem_cons.mpr ⟨less, split.before⟩
      · refine ⟨[], some first, rest, rfl, by simp, by simpa using same, ?_⟩
        obtain ⟨rfl, rfl⟩ := Adjacent.isFor_iff.mp same
        exact fun entry member =>
          Adjacent.isBefore_iff.mp (later entry member)
      · refine ⟨[], none, first :: rest, rfl, by simp, by simp, ?_⟩
        refine List.forall_mem_cons.mpr ⟨greater, fun entry member => ?_⟩
        exact greater.of_precedes (later entry member)

namespace SplitAt

variable {neighbor : VertexId} {type : TypeId} {before after : List Adjacent}
  {here : Option Adjacent}

/-- The first entry that is not before the place of the split. -/
theorem getElem?_place
    (split : list.SplitAt neighbor type before here after) :
    list.entries[before.length]? = (here.toList ++ after).head? := by
  rw [← Array.getElem?_toList, split.entries,
    List.getElem?_append_right (Nat.le_refl _), Nat.sub_self,
    List.head?_eq_getElem?]

/-- The entry of the split is found, or else the place where it belongs. -/
theorem position_eq (split : list.SplitAt neighbor type before here after) :
    list.position neighbor type =
      if here.isSome then .ok before.length else .error before.length := by
  have place : list.partitionPoint (·.isBefore neighbor type) =
      before.length := by
    refine partitionPoint_eq split.entries split.before fun entry member => ?_
    rcases List.mem_append.mp member with found | later
    · exact Adjacent.isBefore_eq_false_of_isFor
        (split.here entry (Option.mem_toList.mp found))
    · exact (split.after entry later).isBefore_eq_false
  rw [position, place, split.getElem?_place]
  cases shape : here with
  | some entry => simp [split.here entry shape]
  | none =>
      cases rest : after with
      | nil => simp
      | cons next others =>
          simp [(split.after next (rest ▸ .head _)).isFor_eq_false]

/-- An entry is put between those before and those after it. -/
theorem toList_insert {entry : Adjacent}
    (split : list.SplitAt entry.neighbor entry.type before here after) :
    (list.insert entry).entries.toList = before ++ entry :: after := by
  rw [insert, split.position_eq]
  cases shape : here with
  | some found =>
      simp only [Option.isSome_some, if_true]
      rw [Array.toList_setIfInBounds, split.entries, shape,
        List.set_append_right _ _ (Nat.le_refl _), Nat.sub_self]
      rfl
  | none =>
      have inside : before.length ≤ list.entries.size := by
        rw [← Array.length_toList, split.entries, List.length_append]
        exact Nat.le_add_right _ _
      simp only [Option.isSome_none, Bool.false_eq_true, if_false]
      rw [Array.insertIdxIfInBounds, dif_pos inside,
        Array.toList_insertIdx, split.entries, shape]
      exact insertIdx_length before after entry

/-- The entry of a split is taken out, and the others stay. -/
theorem remove_eq (split : list.SplitAt neighbor type before here after) :
    (list.remove neighbor type).1 = here ∧
      (list.remove neighbor type).2.entries.toList = before ++ after := by
  rw [remove, split.position_eq]
  cases shape : here with
  | some found =>
      simp only [Option.isSome_some, if_true]
      have entries := split.entries
      rw [shape] at entries
      refine ⟨by rw [split.getElem?_place, shape]; rfl, ?_⟩
      have inside : before.length < list.entries.size := by
        rw [← Array.length_toList, entries, List.length_append]
        simp
      rw [Array.eraseIdxIfInBounds, dif_pos inside, Array.toList_eraseIdx,
        entries, List.eraseIdx_append_of_length_le (Nat.le_refl _),
        Nat.sub_self]
      rfl
  | none =>
      simp only [Option.isSome_none, Bool.false_eq_true, if_false]
      rw [split.entries, shape]
      exact ⟨trivial, rfl⟩

/-- The entries that a split leaves on both sides are in order, with room for
one for the neighbor and the type. -/
theorem pairwise_sides (ascending : list.Ascending)
    (split : list.SplitAt neighbor type before here after) :
    (before ++ after).Pairwise Adjacent.Precedes := by
  refine ascending.sublist ?_
  rw [split.entries]
  exact (List.sublist_append_right _ _).append_left before

/-- Only the entry of a split is for the neighbor and the type. -/
theorem mem_sides_iff
    (split : list.SplitAt neighbor type before here after)
    {entry : Adjacent} :
    entry ∈ before ++ after ↔
      entry ∈ list.entries.toList ∧ entry.isFor neighbor type = false := by
  rw [split.entries]
  simp only [List.mem_append, Option.mem_toList]
  constructor
  · rintro (member | member)
    · refine ⟨.inl member, Bool.eq_false_iff.mpr fun same => ?_⟩
      have less := split.before entry member
      rw [Adjacent.isBefore_eq_false_of_isFor same] at less
      cases less
    · exact ⟨.inr (.inr member), (split.after entry member).isFor_eq_false⟩
  · rintro ⟨member | found | member, different⟩
    · exact .inl member
    · rw [split.here entry found] at different
      cases different
    · exact .inr member

end SplitAt

/-! ## Changes -/

/-- Putting an entry in keeps a list in order. -/
theorem Ascending.insert (ascending : list.Ascending) (entry : Adjacent) :
    (list.insert entry).Ascending := by
  obtain ⟨before, here, after, split⟩ :=
    ascending.exists_splitAt entry.neighbor entry.type
  have sides := split.pairwise_sides ascending
  rw [List.pairwise_append] at sides
  rw [Ascending, split.toList_insert, List.pairwise_append,
    List.pairwise_cons]
  refine ⟨sides.1, ⟨fun later member => ?_, sides.2.1⟩,
    fun earlier member => ?_⟩
  · exact Adjacent.isBefore_iff.mpr (split.after later member)
  · exact List.forall_mem_cons.mpr
      ⟨split.before earlier member, sides.2.2 earlier member⟩

/-- A list holds what is put in and, for other neighbors and types, what it
held before. -/
theorem Ascending.mem_insert (ascending : list.Ascending)
    {entry other : Adjacent} :
    other ∈ (list.insert entry).entries.toList ↔
      other = entry ∨ other ∈ list.entries.toList ∧
        other.isFor entry.neighbor entry.type = false := by
  obtain ⟨before, here, after, split⟩ :=
    ascending.exists_splitAt entry.neighbor entry.type
  rw [split.toList_insert, ← split.mem_sides_iff]
  simp only [List.mem_append, List.mem_cons]
  exact or_left_comm

/-- Taking an entry out keeps a list in order. -/
theorem Ascending.remove (ascending : list.Ascending) (neighbor : VertexId)
    (type : TypeId) : (list.remove neighbor type).2.Ascending := by
  obtain ⟨before, here, after, split⟩ :=
    ascending.exists_splitAt neighbor type
  rw [Ascending, split.remove_eq.2]
  exact split.pairwise_sides ascending

/-- A list holds no entry for a neighbor and a type once it is taken out. -/
theorem Ascending.mem_remove (ascending : list.Ascending)
    {neighbor : VertexId} {type : TypeId} {entry : Adjacent} :
    entry ∈ (list.remove neighbor type).2.entries.toList ↔
      entry ∈ list.entries.toList ∧ entry.isFor neighbor type = false := by
  obtain ⟨before, here, after, split⟩ :=
    ascending.exists_splitAt neighbor type
  rw [split.remove_eq.2, split.mem_sides_iff]

/-! ## The entries for a neighbor -/

/-- In a list in order, a test that holds of all smaller neighbors too holds
up to some entry. -/
theorem filter_append_of_falling {entries : List Adjacent}
    (ascending : entries.Pairwise Adjacent.Precedes) (test : VertexId → Bool)
    (falling : ∀ left right : VertexId, left.number ≤ right.number →
      test right = true → test left = true) :
    entries.filter (test ·.neighbor) ++ entries.filter (!test ·.neighbor) =
      entries := by
  refine filter_append_filter_not
    (ascending.imp fun {entry later} precedes => ?_)
  rw [Adjacent.Precedes, Adjacent.isBefore_iff] at precedes
  exact falling entry.neighbor later.neighbor (by omega)

/-- Halving finds the place up to which such a test holds. -/
theorem Ascending.partitionPoint_eq (ascending : list.Ascending)
    (test : VertexId → Bool)
    (falling : ∀ left right : VertexId, left.number ≤ right.number →
      test right = true → test left = true) :
    list.partitionPoint (test ·.neighbor) =
      (list.entries.toList.filter (test ·.neighbor)).length := by
  refine AdjacencyList.partitionPoint_eq
    (filter_append_of_falling ascending test falling).symm ?_ ?_
  · exact fun entry member => (List.mem_filter.mp member).2
  · intro entry member
    simpa using (List.mem_filter.mp member).2

/-- Between the two places that bound it, a list in order has the entries for
a neighbor. -/
theorem Ascending.toNeighbor_eq (ascending : list.Ascending)
    (neighbor : VertexId) :
    list.toNeighbor neighbor =
      list.entries.toList.filter (·.neighbor = neighbor) := by
  have below (left right : VertexId) (order : left.number ≤ right.number) :
      decide (right < neighbor) = true → decide (left < neighbor) = true := by
    simp only [decide_eq_true_eq, Id.lt_def]
    omega
  have upTo (left right : VertexId) (order : left.number ≤ right.number) :
      decide (right ≤ neighbor) = true → decide (left ≤ neighbor) = true := by
    simp only [decide_eq_true_eq, Id.le_def]
    omega
  rw [toNeighbor, ascending.partitionPoint_eq _ below,
    ascending.partitionPoint_eq _ upTo, Array.toList_extract,
    List.extract_eq_take_drop, ← List.drop_take]
  let entries := list.entries.toList
  -- The entries up to the neighbor, those below it first.
  let kept := entries.filter (·.neighbor ≤ neighbor)
  have taken : entries.take kept.length = kept :=
    (congrArg (List.take kept.length)
      (filter_append_of_falling ascending _ upTo).symm).trans List.take_left
  have smaller : kept.filter (·.neighbor < neighbor) =
      entries.filter (·.neighbor < neighbor) := by
    rw [List.filter_filter]
    refine List.filter_congr fun entry _ => ?_
    simp only [Id.lt_def, Id.le_def, ← Bool.decide_and, decide_eq_decide]
    omega
  have same : kept.filter (fun entry => !decide (entry.neighbor < neighbor)) =
      entries.filter (·.neighbor = neighbor) := by
    rw [List.filter_filter]
    refine List.filter_congr fun entry _ => ?_
    simp only [Id.lt_def, Id.le_def, Id.ext_iff, ← decide_not,
      ← Bool.decide_and, decide_eq_decide]
    omega
  have split := filter_append_of_falling
    (ascending.filter fun entry => decide (entry.neighbor ≤ neighbor)) _ below
  calc (entries.take kept.length).drop
        (entries.filter (·.neighbor < neighbor)).length
      = kept.drop (kept.filter (·.neighbor < neighbor)).length := by
        rw [taken, smaller]
    _ = kept.filter (fun entry => !decide (entry.neighbor < neighbor)) :=
        (congrArg (List.drop _) split.symm).trans List.drop_left
    _ = entries.filter (·.neighbor = neighbor) := same

/-- Nothing can be taken out of a list without entries. -/
theorem remove_empty (neighbor : VertexId) (type : TypeId) :
    remove {} neighbor type = (none, {}) := by
  simp [remove, position, partitionPoint, bisect]

end AdjacencyList

namespace AdjacencyMap

variable {lists : AdjacencyMap}

/-- The entries in the list of a vertex; there are none in a list that is
missing. -/
def entriesAt (lists : AdjacencyMap) (vertex : VertexId) : List Adjacent :=
  (lists.getD vertex {}).entries.toList

/-- The lists of all vertices are in order. -/
def Ascending (lists : AdjacencyMap) : Prop :=
  ∀ vertex, (lists.getD vertex {}).Ascending

theorem entriesAt_of_getElem? {vertex : VertexId} {list : AdjacencyList}
    (found : lists[vertex]? = some list) :
    lists.entriesAt vertex = list.entries.toList := by
  rw [entriesAt, Std.ExtTreeMap.getD_eq_getD_getElem?, found]
  rfl

/-- An entry is put into the list of one vertex. -/
theorem getD_add (lists : AdjacencyMap) (vertex other : VertexId)
    (entry : Adjacent) :
    (lists.add vertex entry).getD other {} =
      if vertex = other then (lists.getD vertex {}).insert entry
      else lists.getD other {} := by
  rw [add, Std.ExtTreeMap.getD_insert]
  simp only [Std.LawfulEqOrd.compare_eq_iff_eq]

/-- An entry is taken out of the list of one vertex. -/
theorem getD_drop (lists : AdjacencyMap)
    (vertex other neighbor : VertexId) (type : TypeId) :
    (lists.drop vertex neighbor type).getD other {} =
      if vertex = other then
        ((lists.getD vertex {}).remove neighbor type).2
      else lists.getD other {} := by
  rw [drop, Std.ExtTreeMap.getD_eq_getD_getElem? (a := vertex)]
  cases found : lists[vertex]? with
  | none =>
      rw [Option.getD_none, AdjacencyList.remove_empty]
      by_cases same : vertex = other
      · rw [if_pos same, ← same, Std.ExtTreeMap.getD_eq_getD_getElem?, found]
        rfl
      · exact (if_neg same).symm
  | some list =>
      rw [Option.getD_some]
      dsimp only
      split
      · rename_i empty
        rw [Std.ExtTreeMap.getD_erase]
        simp only [Std.LawfulEqOrd.compare_eq_iff_eq]
        rw [AdjacencyList.isEmpty, Array.isEmpty_iff] at empty
        exact if_congr Iff.rfl (congrArg AdjacencyList.mk empty).symm rfl
      · rw [Std.ExtTreeMap.getD_insert]
        simp only [Std.LawfulEqOrd.compare_eq_iff_eq]

theorem Ascending.add (ascending : lists.Ascending) (vertex : VertexId)
    (entry : Adjacent) : (lists.add vertex entry).Ascending := by
  intro other
  rw [getD_add]
  split
  · exact (ascending vertex).insert entry
  · exact ascending other

theorem Ascending.drop (ascending : lists.Ascending)
    (vertex neighbor : VertexId) (type : TypeId) :
    (lists.drop vertex neighbor type).Ascending := by
  intro other
  rw [getD_drop]
  split
  · exact (ascending vertex).remove neighbor type
  · exact ascending other

/-- The lists hold what is put in and, elsewhere, what they held before. -/
theorem Ascending.mem_add (ascending : lists.Ascending)
    {vertex other : VertexId} {entry present : Adjacent} :
    present ∈ (lists.add vertex entry).entriesAt other ↔
      if vertex = other ∧
          present.isFor entry.neighbor entry.type = true then
        present = entry
      else present ∈ lists.entriesAt other := by
  rw [entriesAt, getD_add]
  by_cases here : vertex = other
  · subst here
    rw [if_pos rfl, (ascending vertex).mem_insert]
    by_cases same : present.isFor entry.neighbor entry.type = true
    · simp [same]
    · have different : present ≠ entry := by
        rintro rfl
        exact same (Adjacent.isFor_iff.mpr ⟨rfl, rfl⟩)
      simp [same, different, entriesAt]
  · rw [if_neg here, if_neg fun both => here both.1]
    rfl

/-- The lists hold no entry at a vertex for a neighbor and a type once it is
taken out. -/
theorem Ascending.mem_drop (ascending : lists.Ascending)
    {vertex other neighbor : VertexId} {type : TypeId} {entry : Adjacent} :
    entry ∈ (lists.drop vertex neighbor type).entriesAt other ↔
      entry ∈ lists.entriesAt other ∧
        ¬ (vertex = other ∧ entry.isFor neighbor type = true) := by
  rw [entriesAt, getD_drop]
  by_cases here : vertex = other
  · subst here
    rw [if_pos rfl, (ascending vertex).mem_remove]
    simp [entriesAt]
  · rw [if_neg here]
    simp [here, entriesAt]

end AdjacencyMap

end DeltaGraph
