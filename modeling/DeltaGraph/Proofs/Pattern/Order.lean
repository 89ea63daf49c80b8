import DeltaGraph.Proofs.Pattern.Incidence
import Mathlib.Data.List.Perm.Basic

/-!
# Orders are complete

The order after a start keeps the start and lists every other variable once.
The second variable of a whole order is adjacent to the first.
-/

namespace DeltaGraph

namespace Incidence

namespace Candidate

theorem mem_foldl_best (best : Candidate) (rest : List Candidate) :
    rest.foldl (fun best next => if next.exceeds best then next else best)
      best ∈
      best :: rest := by
  induction rest generalizing best with
  | nil => exact .head _
  | cons next rest inductionHypothesis =>
      rw [List.foldl_cons]
      have found :=
        inductionHypothesis (if next.exceeds best then next else best)
      split at found <;> rename_i better
      · rw [if_pos better]
        exact .tail _ found
      · rw [if_neg better]
        rcases List.mem_cons.mp found with same | later
        · rw [same]
          exact .head _
        · exact .tail _ (.tail _ later)

/-- The best candidate is one of the candidates. -/
theorem mem_of_best? {candidates : List Candidate} {best : Candidate}
    (found : best? candidates = some best) : best ∈ candidates := by
  cases candidates with
  | nil => cases found
  | cons first rest =>
      cases found
      exact mem_foldl_best first rest

theorem isSome_best?
    {candidates : List Candidate}
    (nonempty : candidates ≠ []) :
    ∃ best, best? candidates = some best := by
  cases candidates with
  | nil => exact absurd rfl nonempty
  | cons first rest => exact ⟨_, rfl⟩

end Candidate

/-- The next variable is one of those that remain. -/
theorem next?_mem
    {incidence : Incidence}
    {ordered remaining : List String}
    {name : String}
    (next : incidence.next? ordered remaining = some name) :
    name ∈ remaining := by
  simp only [next?, Option.map_eq_some_iff, Option.orElse_eq_orElse,
    Option.orElse_eq_or, Option.or_eq_some_iff] at next
  obtain ⟨best, covered | ⟨_, found⟩, rfl⟩ := next
  · have member := (List.mem_filter.mp (Candidate.mem_of_best? covered)).1
    obtain ⟨name, remains, rfl⟩ := List.mem_map.mp member
    exact remains
  · obtain ⟨name, remains, rfl⟩ :=
      List.mem_map.mp (Candidate.mem_of_best? found)
    exact remains

/-- As long as variables remain there is a next one. -/
theorem exists_next?
    (incidence : Incidence)
    (ordered : List String)
    {remaining : List String}
    (nonempty : remaining ≠ []) :
    ∃ name, incidence.next? ordered remaining = some name := by
  have candidates : remaining.map (incidence.candidate ordered) ≠ [] := by
    simpa using nonempty
  obtain ⟨best, found⟩ := Candidate.isSome_best? candidates
  rw [next?]
  simp only [found, Option.orElse_eq_orElse, Option.orElse_eq_or]
  cases Candidate.best?
    ((remaining.map (incidence.candidate ordered)).filter (·.coverage ≠ 0)) with
  | none => exact ⟨_, rfl⟩
  | some best => exact ⟨_, rfl⟩

/-- A variable that is adjacent to the order is preferred to those that are
not. -/
theorem coverage_of_next?
    {incidence : Incidence}
    {ordered remaining : List String}
    {name other : String}
    (next : incidence.next? ordered remaining = some name)
    (member : other ∈ remaining)
    (covered : (incidence.candidate ordered other).coverage ≠ 0) :
    (incidence.candidate ordered name).coverage ≠ 0 := by
  have nonempty :
      (remaining.map (incidence.candidate ordered)).filter (·.coverage ≠ 0) ≠
        [] := by
    refine List.ne_nil_of_mem (a := incidence.candidate ordered other) ?_
    exact List.mem_filter.mpr
      ⟨List.mem_map_of_mem member, by simpa using covered⟩
  obtain ⟨best, found⟩ := Candidate.isSome_best? nonempty
  simp only [next?, found, Option.orElse_eq_orElse, Option.orElse_eq_or,
    Option.some_or, Option.map_some, Option.some.injEq] at next
  obtain ⟨listed, positive⟩ := List.mem_filter.mp (Candidate.mem_of_best? found)
  obtain ⟨chosen, _, rfl⟩ := List.mem_map.mp listed
  have same : chosen = name := next
  rw [← same]
  simpa using positive

theorem prefix_extendOrder (incidence : Incidence) (count : Nat)
    (ordered remaining : List String) :
    ordered <+: incidence.extendOrder count ordered remaining := by
  induction count generalizing ordered remaining with
  | zero => exact List.prefix_refl ordered
  | succ count inductionHypothesis =>
      rw [extendOrder]
      cases incidence.next? ordered remaining with
      | none => exact List.prefix_refl ordered
      | some name =>
          exact (List.prefix_append ordered [name]).trans
            (inductionHypothesis _ _)

/-- Extending an order by all that remains leaves nothing out and repeats
nothing. -/
theorem perm_extendOrder
    (incidence : Incidence)
    (ordered remaining : List String) :
    (incidence.extendOrder remaining.length ordered remaining).Perm
      (ordered ++ remaining) := by
  induction size : remaining.length generalizing ordered remaining with
  | zero => simp [extendOrder, List.length_eq_zero_iff.mp size]
  | succ count inductionHypothesis =>
      have nonempty : remaining ≠ [] := by
        rintro rfl
        cases size
      obtain ⟨name, next⟩ := incidence.exists_next? ordered nonempty
      have member := next?_mem next
      have shorter : (remaining.erase name).length = count := by
        rw [List.length_erase_of_mem member]
        omega
      rw [extendOrder, next]
      refine (inductionHypothesis (ordered ++ [name]) (remaining.erase name)
        shorter).trans ?_
      rw [List.append_assoc]
      exact (List.perm_cons_erase member).symm.append_left ordered

variable {pattern : Pattern}

/-- An order that starts with some variables keeps them in front. -/
theorem prefix_orderAfter (incidence : Incidence) (start : List String) :
    start <+: incidence.orderAfter start :=
  incidence.prefix_extendOrder _ _ _

/-- The order after a start of different variables lists every variable once. -/
theorem orderAfter_complete
    (incidence : Incidence)
    (start : List String)
    (different : start.Nodup)
    (declared : ∀ name ∈ start, name ∈ incidence.names) :
    (incidence.orderAfter start).Nodup ∧
      ∀ name, name ∈ incidence.orderAfter start ↔ name ∈ incidence.names := by
  have permuted := incidence.perm_extendOrder start
    (incidence.names.filter (!start.contains ·))
  constructor
  · refine permuted.nodup_iff.mpr (List.nodup_append.mpr ⟨different, ?_, ?_⟩)
    · exact incidence.nodup_names.filter _
    · rintro name inStart _ remains rfl
      simp [inStart] at remains
  · intro name
    rw [orderAfter, permuted.mem_iff, List.mem_append, List.mem_filter]
    constructor
    · rintro (inStart | remains)
      · exact declared name inStart
      · exact remains.1
    · intro known
      by_cases inStart : name ∈ start
      · exact .inl inStart
      · exact .inr ⟨known, by simpa using inStart⟩

theorem coverage_ne_zero_iff {first name : String} :
    ((ofPattern pattern).candidate [first] name).coverage ≠ 0 ↔
      ∃ index, index ∈ (ofPattern pattern).relationsJoining name first := by
  simp only [candidate, relationsJoining, List.countP_singleton,
    List.any_eq_true, beq_iff_eq, List.mem_map, List.mem_filter,
    ite_ne_right_iff]
  constructor
  · rintro ⟨⟨relationEnd, member, far⟩, _⟩
    exact ⟨_, relationEnd, ⟨member, far⟩, rfl⟩
  · rintro ⟨_, relationEnd, ⟨member, far⟩, _⟩
    exact ⟨⟨relationEnd, member, far⟩, Nat.one_ne_zero⟩

/-- The first two variables of a whole order are joined by a relation. -/
theorem order_start (valid : pattern.Valid) :
    ∃ first second rest index,
      (ofPattern pattern).order = first :: second :: rest ∧
      index ∈ (ofPattern pattern).relationsJoining first second := by
  obtain ⟨relation, member⟩ := List.exists_mem_of_ne_nil _ valid.nonempty
  have all : (ofPattern pattern).names.filter (!List.contains [] ·) =
      (ofPattern pattern).names := by simp
  have declared := (mem_names_ofPattern valid).mpr (valid.source member)
  obtain ⟨first, next⟩ :=
    (ofPattern pattern).exists_next? [] (List.ne_nil_of_mem declared)
  have known := next?_mem next
  obtain ⟨joining, used, touches⟩ :=
    valid.touched ((mem_names_ofPattern valid).mp known)
  -- The other end of a relation that touches the first variable is left over.
  obtain ⟨other, remains, covered⟩ :
    ∃ other ∈ (ofPattern pattern).names.erase first,
      ((ofPattern pattern).candidate [first] other).coverage ≠ 0 := by
    have different := valid.ends used
    obtain ⟨index, _, found⟩ := List.mem_iff_getElem.mp used
    have place : pattern.relations[index]? = some joining :=
      List.getElem?_eq_some_iff.mpr ⟨_, found⟩
    rcases touches with rfl | rfl
    · refine ⟨joining.target, ?_, coverage_ne_zero_iff.mpr ⟨index, ?_⟩⟩
      · rw [List.mem_erase_of_ne different.symm, mem_names_ofPattern valid]
        exact valid.target used
      · exact mem_relationsJoining.mpr ⟨joining, place, .inr ⟨rfl, rfl⟩⟩
    · refine ⟨joining.source, ?_, coverage_ne_zero_iff.mpr ⟨index, ?_⟩⟩
      · rw [List.mem_erase_of_ne different, mem_names_ofPattern valid]
        exact valid.source used
      · exact mem_relationsJoining.mpr ⟨joining, place, .inl ⟨rfl, rfl⟩⟩
  obtain ⟨second, following⟩ :=
    (ofPattern pattern).exists_next? [first] (List.ne_nil_of_mem remains)
  obtain ⟨index, joins⟩ :=
    coverage_ne_zero_iff.mp (coverage_of_next? following remains covered)
  have order : [first, second] <+: (ofPattern pattern).order := by
    have count : (ofPattern pattern).names.length =
        ((ofPattern pattern).names.erase first).length + 1 := by
      have positive := List.length_pos_of_mem known
      rw [List.length_erase_of_mem known]
      omega
    have later : ((ofPattern pattern).names.erase first).length =
        ((ofPattern pattern).names.erase first).length - 1 + 1 := by
      have positive := List.length_pos_of_mem remains
      omega
    rw [Incidence.order, orderAfter, all, count, extendOrder, next]
    simp only [List.nil_append]
    rw [later, extendOrder, following]
    exact prefix_extendOrder _ _ _ _
  obtain ⟨rest, split⟩ := order
  refine ⟨first, second, rest, index, by simpa using split.symm, ?_⟩
  obtain ⟨found, place, ends⟩ := mem_relationsJoining.mp joins
  exact mem_relationsJoining.mpr ⟨found, place, ends.symm.imp And.symm And.symm⟩

end Incidence

end DeltaGraph
