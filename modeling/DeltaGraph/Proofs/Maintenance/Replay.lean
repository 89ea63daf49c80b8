import DeltaGraph.Proofs.Maintenance.Mixture
import Mathlib.Logic.Function.Basic

/-!
# Replaying the events of a batch

A receiver of events can keep the number of copies that it has of every row.
The additions and removals of one relation lead from the rows before the
relation has moved to the rows after it, without a removal of a row that is not
there and with at most two copies of a row at any time.
-/

namespace DeltaGraph

/-- The copies of rows that a receiver of events has. -/
abbrev Copies := Row → Nat

namespace Copies

/-- The copies after one more event.  A row of which there is no copy cannot
leave. -/
def step (copies : Copies) (event : Event) : Option Copies :=
  match event.kind with
  | .matched => some copies
  | .emerged => some (Function.update copies event.row (copies event.row + 1))
  | .deleted =>
      if copies event.row = 0 then none
      else some (Function.update copies event.row (copies event.row - 1))

/-- The copies after events, one after another. -/
def replay (copies : Copies) (events : List Event) : Option Copies :=
  events.foldlM step copies

theorem replay_append {copies later : Copies} {first : List Event}
    (replayed : copies.replay first = some later) (next : List Event) :
    copies.replay (first ++ next) = later.replay next := by
  rw [replay, List.foldlM_append, ← replay, replayed]
  rfl

/-- An event brings or takes one copy of its row, and no copy of another row. -/
theorem count_of_step {copies later : Copies} {event : Event}
    (stepped : copies.step event = some later) (row : Row) :
    copies row + [event].count ⟨.emerged, row⟩ =
      later row + [event].count ⟨.deleted, row⟩ := by
  obtain ⟨kind, changed⟩ := event
  cases kind with
  | matched =>
      cases stepped
      simp
  | emerged =>
      cases stepped
      by_cases same : changed = row
      · subst same
        simp
      · simp [Function.update_of_ne (Ne.symm same), same]
  | deleted =>
      simp only [step, Option.ite_none_left_eq_some, Option.some.injEq]
        at stepped
      obtain ⟨present, rfl⟩ := stepped
      by_cases same : changed = row
      · subst same
        simp only [Function.update_self, List.count_singleton_self,
          List.count_singleton, beq_iff_eq, Event.mk.injEq, reduceCtorEq,
          false_and, if_false]
        omega
      · simp [Function.update_of_ne (Ne.symm same), same]

/-- The copies that events bring and take make up the difference. -/
theorem count_of_replay {copies final : Copies} {events : List Event}
    (replayed : copies.replay events = some final) (row : Row) :
    copies row + events.count ⟨.emerged, row⟩ =
      final row + events.count ⟨.deleted, row⟩ := by
  induction events generalizing copies with
  | nil =>
      cases replayed
      rfl
  | cons event rest inductionHypothesis =>
      rw [replay, List.foldlM_cons] at replayed
      obtain ⟨next, stepped, replayedRest⟩ :=
        Option.bind_eq_some_iff.mp replayed
      have here := count_of_step stepped row
      have later := inductionHypothesis replayedRest
      rw [← List.singleton_append, List.count_append, List.count_append]
      omega

theorem replay_emerged (copies : Copies) (rows : List Row) :
    copies.replay (rows.map (Event.mk .emerged)) =
      some fun row => copies row + rows.count row := by
  induction rows generalizing copies with
  | nil => rfl
  | cons first rest inductionHypothesis =>
      rw [List.map_cons, replay, List.foldlM_cons]
      refine (inductionHypothesis
        (Function.update copies first (copies first + 1))).trans ?_
      congr 1
      funext row
      by_cases same : first = row
      · subst same
        simp only [Function.update_self, List.count_cons_self]
        omega
      · simp [Function.update_of_ne (Ne.symm same), same]

theorem replay_deleted (copies : Copies) {rows : List Row}
    (enough : ∀ row, rows.count row ≤ copies row) :
    copies.replay (rows.map (Event.mk .deleted)) =
      some fun row => copies row - rows.count row := by
  induction rows generalizing copies with
  | nil => rfl
  | cons first rest inductionHypothesis =>
      have here := enough first
      rw [List.count_cons_self] at here
      have present : copies first ≠ 0 := by omega
      rw [List.map_cons, replay, List.foldlM_cons, step, if_neg present]
      refine (inductionHypothesis
        (Function.update copies first (copies first - 1))
        fun row => ?_).trans ?_
      · have bound := enough row
        by_cases same : first = row
        · subst same
          rw [Function.update_self]
          omega
        · rw [Function.update_of_ne (Ne.symm same)]
          simpa [List.count_cons, same] using bound
      · congr 1
        funext row
        by_cases same : first = row
        · subst same
          simp only [Function.update_self, List.count_cons_self]
          omega
        · simp [Function.update_of_ne (Ne.symm same), same]

/-- At no point of a replay are there more than two copies of a row, and no row
leaves that is not there. -/
def Safe (copies : Copies) (events : List Event) : Prop :=
  ∀ count, ∃ now, copies.replay (events.take count) = some now ∧
    ∀ row, now row ≤ 2

theorem Safe.append {copies later : Copies} {first next : List Event}
    (safe : copies.Safe first) (replayed : copies.replay first = some later)
    (safeNext : later.Safe next) : copies.Safe (first ++ next) := by
  intro count
  rw [List.take_append]
  by_cases inside : count ≤ first.length
  · obtain ⟨now, reached, bounded⟩ := safe count
    have nothing : count - first.length = 0 := by omega
    rw [nothing, List.take_zero, List.append_nil]
    exact ⟨now, reached, bounded⟩
  · obtain ⟨now, reached, bounded⟩ := safeNext (count - first.length)
    rw [List.take_of_length_le (by omega), replay_append replayed]
    exact ⟨now, reached, bounded⟩

/-- There is one copy of the rows with a property, and none of the others. -/
def Of (copies : Copies) (property : Row → Prop) : Prop :=
  ∀ row, property row ∧ copies row = 1 ∨ ¬ property row ∧ copies row = 0

theorem Of.le_one
    {copies : Copies}
    {property : Row → Prop}
    (of : copies.Of property)
    (row : Row) : copies row ≤ 1 := by
  rcases of row with ⟨_, one⟩ | ⟨_, none⟩ <;> omega

theorem Of.congr
    {copies : Copies}
    {property another : Row → Prop}
    (of : copies.Of property)
    (same : ∀ row, property row ↔ another row) : copies.Of another := by
  intro row
  rw [← same]
  exact of row

/-- Rows that are listed once each are copies of the listed rows. -/
theorem of_nodup
    {rows : List Row}
    (different : rows.Nodup)
    {property : Row → Prop}
    (listed : ∀ row, row ∈ rows ↔ property row) :
    Copies.Of (rows.count ·) property := by
  intro row
  rw [← listed]
  by_cases member : row ∈ rows
  · exact .inl ⟨member, List.count_eq_one_of_mem different member⟩
  · exact .inr ⟨member, List.count_eq_zero_of_not_mem member⟩

theorem Of.eq
    {copies another : Copies}
    {property : Row → Prop}
    (of : copies.Of property)
    (anotherOf : another.Of property) : copies = another := by
  funext row
  rcases of row with ⟨holds, one⟩ | ⟨fails, none⟩ <;>
    rcases anotherOf row with ⟨otherHolds, otherOne⟩ | ⟨otherFails, otherNone⟩
  · rw [one, otherOne]
  · exact absurd holds otherFails
  · exact absurd otherHolds fails
  · rw [none, otherNone]

/-- The additions and then the removals of one relation. -/
theorem replay_block
    {copies : Copies}
    (during : Version → Row → Prop)
    (history : ∀ row, ∃ history : Option EdgeHistory, ∀ version,
      during version row ↔ history.any (·.visible version) = true)
    (of : copies.Of (during .permanent))
    {additions removals : List Row}
    (additionsDiffer : additions.Nodup)
    (added : ∀ row, row ∈ additions ↔ during .additions row)
    (removalsDiffer : removals.Nodup)
    (removed : ∀ row, row ∈ removals ↔ during .removals row) :
    ∃ later, copies.replay (additions.map (Event.mk .emerged) ++
        removals.map (Event.mk .deleted)) = some later ∧
      later.Of (during .merged) ∧
      copies.Safe
        (additions.map (Event.mk .emerged) ++
          removals.map (Event.mk .deleted)) := by
  have addedOf := of_nodup additionsDiffer added
  have removedOf := of_nodup removalsDiffer removed
  -- Per row, the four versions of an edge leave only the sums that fit.
  have sums (row : Row) :
      removals.count row ≤ copies row + additions.count row ∧
        (during .merged row ∧
          copies row + additions.count row - removals.count row = 1 ∨
          ¬ during .merged row ∧
            copies row + additions.count row - removals.count row = 0) := by
    obtain ⟨known, versions⟩ := history row
    have before := of row
    have emerged := addedOf row
    have deleted := removedOf row
    rw [versions] at before emerged deleted
    rw [versions]
    rcases known with _ | (_ | _ | _ | _ | _) <;>
      simp [EdgeHistory.visible] at before emerged deleted ⊢ <;> omega
  have afterAdditions := copies.replay_emerged additions
  have afterRemovals :=
    replay_deleted (fun row => copies row + additions.count row)
    fun row => (sums row).1
  refine ⟨fun row => copies row + additions.count row - removals.count row, ?_,
    fun row => (sums row).2, ?_⟩
  · rw [replay_append afterAdditions, afterRemovals]
  · refine Safe.append (fun count => ?_) afterAdditions fun count => ?_
    · rw [← List.map_take]
      refine ⟨_, copies.replay_emerged (additions.take count), fun row => ?_⟩
      have before := of.le_one row
      have emerged : additions.count row ≤ 1 := addedOf.le_one row
      have part := (List.take_sublist count additions).count_le row
      omega
    · rw [← List.map_take]
      have part (row : Row) := (List.take_sublist count removals).count_le row
      refine ⟨_,
        replay_deleted _ fun row => Nat.le_trans (part row) (sums row).1,
        fun row => ?_⟩
      have before := of.le_one row
      have emerged : additions.count row ≤ 1 := addedOf.le_one row
      omega

end Copies

end DeltaGraph
