import DeltaGraph.Pattern.Order
import DeltaGraph.Proofs.Pattern.Valid

/-!
# The incidence of a pattern

The ends listed under a variable are those of the relations that touch it, and
the variables are the declared ones together with the ends of relations.
-/

namespace DeltaGraph

namespace Incidence

theorem endsAt_declare (incidence : Incidence) (name other : String) :
    (incidence.declare name).endsAt other = incidence.endsAt other := by
  simp only [endsAt, declare, Std.ExtTreeMap.getD_insertIfNew]
  split
  · rename_i new
    obtain ⟨same, missing⟩ := new
    rw [Std.LawfulEqOrd.compare_eq_iff_eq] at same
    subst same
    exact (Std.ExtTreeMap.getD_eq_fallback missing).symm
  · rfl

/-- Declaring a name adds it to the names and nothing else. -/
theorem mem_names_declare {incidence : Incidence} {name other : String} :
    other ∈ (incidence.declare name).names ↔
      name = other ∨ other ∈ incidence.names := by
  simp [names, declare]

/-- An end is added to its own name, after the ends it has. -/
theorem endsAt_addEnd
    (incidence : Incidence)
    (name other : String)
    (relationEnd : RelationEnd) :
    (incidence.addEnd name relationEnd).endsAt other =
      incidence.endsAt other ++ if name = other then [relationEnd] else [] := by
  simp only [endsAt, addEnd, Std.ExtTreeMap.getD_insert,
    Std.LawfulEqOrd.compare_eq_iff_eq]
  by_cases same : name = other
  · subst same
    simp
  · simp [same]

theorem mem_names_addEnd {incidence : Incidence} {name other : String}
    {relationEnd : RelationEnd} :
    other ∈ (incidence.addEnd name relationEnd).names ↔
      name = other ∨ other ∈ incidence.names := by
  simp [names, addEnd]

/-- The ends that relations list under a variable. -/
def endsOf
    (name : String)
    (relations : List (Relation × Nat)) : List RelationEnd :=
  relations.flatMap fun (relation, index) =>
    (if relation.source = name then [⟨relation.target, false, index⟩]
      else []) ++
      if relation.target = name then [⟨relation.source, true, index⟩] else []

/-- The ends at a name are collected in the order of the relations. -/
theorem endsAt_foldl (incidence : Incidence) (relations : List (Relation × Nat))
    (name : String) :
    (relations.foldl
      (fun incidence (relation, index) => incidence.addRelation relation index)
      incidence).endsAt name =
      incidence.endsAt name ++ endsOf name relations := by
  induction relations generalizing incidence with
  | nil => simp [endsOf]
  | cons first rest inductionHypothesis =>
      obtain ⟨relation, index⟩ := first
      rw [List.foldl_cons, inductionHypothesis]
      simp [addRelation, endsAt_addEnd, endsOf]

/-- Relations add their ends to the names. -/
theorem mem_names_foldl
    {incidence : Incidence}
    {relations : List (Relation × Nat)}
    {name : String} :
    name ∈ (relations.foldl (fun incidence (relation, index) =>
        incidence.addRelation relation index) incidence).names ↔
      name ∈ incidence.names ∨
        ∃ entry ∈ relations, entry.1.source = name ∨ entry.1.target = name := by
  induction relations generalizing incidence with
  | nil => simp
  | cons first rest inductionHypothesis =>
      obtain ⟨relation, index⟩ := first
      rw [List.foldl_cons, inductionHypothesis]
      simp only [addRelation, mem_names_addEnd, List.mem_cons, exists_eq_or_imp]
      constructor
      · rintro ((target | source | old) | later)
        · exact .inr (.inl (.inr target))
        · exact .inr (.inl (.inl source))
        · exact .inl old
        · exact .inr (.inr later)
      · rintro (old | (source | target) | later)
        · exact .inl (.inr (.inr old))
        · exact .inl (.inr (.inl source))
        · exact .inl (.inl target)
        · exact .inr later

theorem endsAt_foldl_declare
    (incidence : Incidence)
    (declared : List String)
    (name : String) :
    (declared.foldl declare incidence).endsAt name = incidence.endsAt name := by
  induction declared generalizing incidence with
  | nil => rfl
  | cons first rest inductionHypothesis =>
      rw [List.foldl_cons, inductionHypothesis, endsAt_declare]

theorem mem_names_foldl_declare {incidence : Incidence} {declared : List String}
    {name : String} :
    name ∈ (declared.foldl declare incidence).names ↔
      name ∈ incidence.names ∨ name ∈ declared := by
  induction declared generalizing incidence with
  | nil => simp
  | cons first rest inductionHypothesis =>
      rw [List.foldl_cons, inductionHypothesis, mem_names_declare,
        List.mem_cons]
      tauto

/-- A variable lists an end for each relation that touches it. -/
theorem endsAt_ofPattern (pattern : Pattern) (name : String) :
    (ofPattern pattern).endsAt name = endsOf name pattern.relations.zipIdx := by
  rw [ofPattern, endsAt_foldl, endsAt_foldl_declare]
  simp [endsAt]

/-- The names of a valid pattern are its variables. -/
theorem mem_names_ofPattern
    {pattern : Pattern}
    (valid : pattern.Valid)
    {name : String} :
    name ∈ (ofPattern pattern).names ↔ name ∈ pattern.variableNames := by
  rw [ofPattern, mem_names_foldl, mem_names_foldl_declare]
  constructor
  · rintro ((old | declared) | ⟨⟨relation, index⟩, member, touches⟩)
    · simp [names] at old
    · exact declared
    · have used := List.fst_mem_of_mem_zipIdx member
      rcases touches with rfl | rfl
      · exact valid.source used
      · exact valid.target used
  · exact fun declared => .inl (.inr declared)

/-- No name is listed twice. -/
theorem nodup_names (incidence : Incidence) : incidence.names.Nodup := by
  refine Std.ExtTreeMap.distinct_keys.imp ?_
  rintro left _ different rfl
  exact different Std.ReflCmp.compare_self

/-- The relations joining two names are those with these ends, in either
direction. -/
theorem mem_relationsJoining
    {pattern : Pattern}
    {left right : String}
    {index : Nat} :
    index ∈ (ofPattern pattern).relationsJoining left right ↔
      ∃ relation, pattern.relations[index]? = some relation ∧
        (relation.source = left ∧ relation.target = right ∨
          relation.target = left ∧ relation.source = right) := by
  simp only [relationsJoining, endsAt_ofPattern, endsOf, List.mem_map,
    List.mem_filter, List.mem_flatMap, List.mem_append, Prod.exists,
    List.mem_zipIdx_iff_getElem?, List.mem_ite_nil_right, List.mem_singleton,
    beq_iff_eq]
  constructor
  · rintro ⟨_, ⟨⟨relation, place, found, ⟨near, rfl⟩ | ⟨near, rfl⟩⟩, far⟩, rfl⟩
    · exact ⟨relation, found, .inl ⟨near, far⟩⟩
    · exact ⟨relation, found, .inr ⟨near, far⟩⟩
  · rintro ⟨relation, found, ⟨near, far⟩ | ⟨near, far⟩⟩
    · exact ⟨_, ⟨⟨relation, index, found, .inl ⟨near, rfl⟩⟩, far⟩, rfl⟩
    · exact ⟨_, ⟨⟨relation, index, found, .inr ⟨near, rfl⟩⟩, far⟩, rfl⟩

/-- Between two different variables, each relation that joins them is found
once. -/
theorem relationsJoining_eq_filter {pattern : Pattern} {left right : String}
    (different : left ≠ right) :
    (ofPattern pattern).relationsJoining left right =
      (pattern.relations.zipIdx.filter fun (relation, _) =>
        relation.joins left right).map
        Prod.snd := by
  rw [relationsJoining, endsAt_ofPattern]
  generalize pattern.relations.zipIdx = relations
  induction relations with
  | nil => rfl
  | cons first rest inductionHypothesis =>
      obtain ⟨relation, index⟩ := first
      rw [endsOf, List.flatMap_cons, ←
        endsOf, List.filter_append, List.map_append, inductionHypothesis,
        List.filter_cons]
      -- One end of the relation is at `left`, and only that one counts if the
      -- other is at `right`.
      by_cases source : relation.source = left
      · by_cases target : relation.target = right
        · simp [Relation.joins, source, target, different.symm]
        · simp [Relation.joins, source, target, different]
      · by_cases target : relation.target = left
        · by_cases back : relation.source = right
          · simp [Relation.joins, target, back, different.symm]
          · simp [Relation.joins, source, target, back]
        · simp [Relation.joins, source, target]

/-- The relations that join two different variables are in the order of
declaration. -/
theorem pairwise_relationsJoining_of_ne
    {pattern : Pattern}
    {left right : String}
    (different : left ≠ right) :
    ((ofPattern pattern).relationsJoining left right).Pairwise (· < ·) := by
  have ordered : (pattern.relations.zipIdx.map Prod.snd).Pairwise (· < ·) := by
    rw [List.zipIdx_map_snd]
    exact List.pairwise_lt_range'
  rw [relationsJoining_eq_filter different]
  exact ordered.sublist (List.filter_sublist.map Prod.snd)

end Incidence

end DeltaGraph
