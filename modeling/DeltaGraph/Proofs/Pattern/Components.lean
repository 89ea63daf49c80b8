import DeltaGraph.Proofs.Lists
import DeltaGraph.Proofs.Pattern.Greedy
import Mathlib.Combinatorics.SimpleGraph.Connectivity.Connected

/-!
# Orders and connected components

Relations, taken both ways, connect the variables of a pattern.  An order leaves
a component only when no variable of it remains: the next variable is joined to
the order and belongs to the component of the last entry, or it opens a
component that no entry belongs to.  So every component is a block of the order.
-/

namespace DeltaGraph

namespace Pattern

/-- The variables, any two of them being neighbors if a relation joins them. -/
def network (pattern : Pattern) : SimpleGraph String :=
  SimpleGraph.fromRel fun left right => pattern.adjacent left right

/-- The connected component of a variable. -/
def component
    (pattern : Pattern)
    (name : String) : pattern.network.ConnectedComponent :=
  pattern.network.connectedComponentMk name

/-- The connected components of the variables. -/
def components (pattern : Pattern) : Set pattern.network.ConnectedComponent :=
  pattern.component '' {name | name ∈ pattern.variableNames}

/-- The variable belongs to a component that no entry of the order belongs
to. -/
def Opens (pattern : Pattern) (ordered : List String) (name : String) : Prop :=
  ∀ entry ∈ ordered, pattern.component entry ≠ pattern.component name

/-- The variable is joined to the order and belongs to the component of its last
entry. -/
structure Continues
    (pattern : Pattern)
    (ordered : List String)
    (name : String) : Prop where
  joined : ∃ entry ∈ ordered, pattern.adjacent name entry
  component {last : String} (ends : ordered.getLast? = some last) :
    pattern.component last = pattern.component name

/-- Every entry continues the component of the one before or opens a
component. -/
def Unfolds (pattern : Pattern) (order : List String) : Prop :=
  ∀ before name after, order = before ++ name :: after →
    pattern.Continues before name ∨ pattern.Opens before name

/-- The variables that remain and are joined to the order belong to the
component of its last entry. -/
def Focused (pattern : Pattern) (ordered : List String) : Prop :=
  ∀ name, pattern.Remains ordered name →
    (∃ entry ∈ ordered, pattern.adjacent name entry) →
    pattern.Continues ordered name

variable {pattern : Pattern} {left right name : String} {ordered : List String}

theorem adjacent_comm :
    pattern.adjacent left right = pattern.adjacent right left := by
  refine congrArg (List.any pattern.relations) (funext fun relation => ?_)
  rw [Relation.joins, Relation.joins, Bool.or_comm]

theorem adjacent_iff : pattern.adjacent left right ↔
    ∃ relation ∈ pattern.relations, relation.source = left ∧
      relation.target = right ∨
      relation.source = right ∧ relation.target = left := by
  simp [adjacent, Relation.joins]

theorem mentions_of_adjacent (joined : pattern.adjacent left right) :
    pattern.Mentions left := by
  obtain ⟨relation, member, ends⟩ := adjacent_iff.mp joined
  refine .inr ⟨relation, member, ?_⟩
  rcases ends with ⟨rfl, _⟩ | ⟨_, rfl⟩ <;> simp [Relation.touches]

theorem component_eq_of_adjacent (joined : pattern.adjacent left right) :
    pattern.component left = pattern.component right := by
  by_cases same : left = right
  · rw [same]
  · have neighbors : pattern.network.Adj left right :=
      (SimpleGraph.fromRel_adj _ _ _).mpr ⟨same, .inl joined⟩
    exact SimpleGraph.ConnectedComponent.eq.mpr neighbors.reachable

/-- Entries that no other variable is joined to make up whole components. -/
theorem opens_of_closed
    (closed : ∀ entry ∈ ordered, ∀ other, pattern.adjacent other entry →
      other ∈ ordered)
    (missing : name ∉ ordered) :
    pattern.Opens ordered name := by
  intro entry member same
  obtain ⟨walk⟩ := SimpleGraph.ConnectedComponent.exact same
  clear same
  induction walk with
  | nil => exact missing member
  | cons neighbors _ inductionHypothesis =>
      refine inductionHypothesis missing (closed _ member _ ?_)
      rcases ((SimpleGraph.fromRel_adj _ _ _).mp neighbors).2
        with joined | joined
      · rwa [adjacent_comm]
      · exact joined

theorem Leads.joined {score : String → Nat} (leads : pattern.Leads ordered
      (fun other => toLex (pattern.coverage ordered other, score other)) name)
    {other : String} (remains : pattern.Remains ordered other)
    (joined : ∃ entry ∈ ordered, pattern.adjacent other entry) :
    ∃ entry ∈ ordered, pattern.adjacent name entry := by
  by_cases same : other = name
  · rwa [← same]
  · have covered : 0 < pattern.coverage ordered other :=
      List.countP_pos_iff.mpr joined
    refine List.countP_pos_iff.mp (covered.trans_le ?_)
    rcases leads.first remains same with less | ⟨equal, _⟩
    · exact Prod.Lex.monotone_fst _ _ less.le
    · exact Prod.Lex.monotone_fst _ _ equal.le

/-- As long as variables are joined to the order, the next one continues it. -/
theorem Follows.continues
    (follows : pattern.Follows ordered name)
    (focused : pattern.Focused ordered)
    (joined : ∃ other, pattern.Remains ordered other ∧
      ∃ entry ∈ ordered, pattern.adjacent other entry) :
    pattern.Continues ordered name := by
  have leads := follows.joined joined
  obtain ⟨other, remains, joins⟩ := joined
  exact focused name leads.remains (leads.joined remains joins)

/-- When no variable is joined to the order, the next one opens a component. -/
theorem Follows.opens
    (follows : pattern.Follows ordered name)
    (apart : ¬ ∃ other, pattern.Remains ordered other ∧
      ∃ entry ∈ ordered, pattern.adjacent other entry) :
    pattern.Opens ordered name := by
  refine opens_of_closed (fun entry member other joined => ?_)
    (follows.apart apart).remains.2
  by_contra missing
  exact apart
    ⟨other, ⟨mentions_of_adjacent joined, missing⟩, entry, member, joined⟩

theorem Follows.continues_or_opens (follows : pattern.Follows ordered name)
    (focused : pattern.Focused ordered) :
    pattern.Continues ordered name ∨ pattern.Opens ordered name :=
  (Classical.em _).imp (follows.continues focused) follows.opens

/-- One more variable by the greedy rule leaves the order focused. -/
theorem Focused.concat
    (focused : pattern.Focused ordered)
    (follows : pattern.Follows ordered name) :
    pattern.Focused (ordered ++ [name]) := by
  rintro other ⟨mentioned, missing⟩ ⟨entry, member, joined⟩
  refine ⟨⟨entry, member, joined⟩, fun {last} ends => ?_⟩
  rw [List.getLast?_concat, Option.some.injEq] at ends
  subst ends
  rcases List.mem_append.mp member with earlier | same
  · have remains : pattern.Remains ordered other :=
      ⟨mentioned, fun listed => missing (List.mem_append_left _ listed)⟩
    have joins : ∃ entry ∈ ordered, pattern.adjacent other entry :=
      ⟨entry, earlier, joined⟩
    have next := follows.continues focused ⟨other, remains, joins⟩
    have last := List.getLast?_eq_some_getLast (List.ne_nil_of_mem earlier)
    exact (next.component last).symm.trans
      ((focused other remains joins).component last)
  · rw [List.mem_singleton.mp same] at joined
    exact (component_eq_of_adjacent joined).symm

theorem unfolds_nil : pattern.Unfolds [] := by
  intro before name after split
  simp at split

theorem Unfolds.concat (unfolds : pattern.Unfolds ordered)
    (next : pattern.Continues ordered name ∨ pattern.Opens ordered name) :
    pattern.Unfolds (ordered ++ [name]) := by
  intro before other after split
  rcases List.eq_nil_or_concat after with rfl | ⟨after, last, rfl⟩
  · obtain ⟨rfl, same⟩ := List.append_inj' split rfl
    cases same
    exact next
  · rw [List.concat_eq_append, ← List.cons_append, ← List.append_assoc] at split
    exact unfolds before other after (List.append_inj' split rfl).1

/-- An order unfolds if its start is focused and unfolds. -/
theorem unfolds_orderAfter
    {start : List String}
    (focused : pattern.Focused start)
    (unfolds : pattern.Unfolds start) :
    pattern.Unfolds ((Incidence.ofPattern pattern).orderAfter start) := by
  obtain ⟨later, order, _⟩ :=
    (Incidence.ofPattern pattern).orderAfter_eq_append start
  -- The induction is on how much of the order has been appended to the start.
  have each (before : List String) : ∀ after, later = before ++ after →
      pattern.Focused (start ++ before) ∧
        pattern.Unfolds (start ++ before) := by
    induction before using List.reverseRecOn with
    | nil =>
        rw [List.append_nil]
        exact fun _ _ => ⟨focused, unfolds⟩
    | append_singleton before name inductionHypothesis =>
        intro after split
        rw [List.append_assoc] at split
        obtain ⟨sofar, unfolded⟩ := inductionHypothesis _ split
        have follows := Incidence.follows_orderAfter order split
        rw [← List.append_assoc]
        exact ⟨sofar.concat follows,
          unfolded.concat (follows.continues_or_opens sofar)⟩
  rw [order]
  exact (each later [] (List.append_nil later).symm).2

/-- The order of all variables unfolds. -/
theorem unfolds_order (pattern : Pattern) :
    pattern.Unfolds (Incidence.ofPattern pattern).order :=
  unfolds_orderAfter (fun _ _ joined => by simp at joined) unfolds_nil

/-- The order after the ends of a relation unfolds. -/
theorem unfolds_orderAfter_ends
    {relation : Relation}
    (member : relation ∈ pattern.relations) :
    pattern.Unfolds
      ((Incidence.ofPattern pattern).orderAfter
        [relation.source, relation.target]) := by
  have joined : pattern.adjacent relation.target relation.source :=
    adjacent_iff.mpr ⟨relation, member, .inr ⟨rfl, rfl⟩⟩
  have same := component_eq_of_adjacent joined
  refine unfolds_orderAfter ?_ ?_
  · rintro other _ ⟨entry, listed, joins⟩
    refine ⟨⟨entry, listed, joins⟩, fun {last} ends => ?_⟩
    cases ends
    rw [component_eq_of_adjacent joins]
    rcases List.mem_pair.mp listed with rfl | rfl
    · exact same
    · rfl
  · have first : pattern.Unfolds [relation.source] :=
      unfolds_nil.concat
        (.inr fun entry listed => absurd listed List.not_mem_nil)
    refine first.concat (.inl ⟨⟨_, .head _, joined⟩, fun {last} ends => ?_⟩)
    cases ends
    exact same.symm

theorem Unfolds.getElem?
    {order : List String}
    (unfolds : pattern.Unfolds order)
    {index : Nat}
    (found : order[index]? = some name) :
    pattern.Continues (order.take index) name ∨
      pattern.Opens (order.take index) name := by
  refine unfolds _ name (order.drop (index + 1)) ?_
  obtain ⟨inside, rfl⟩ := List.getElem?_eq_some_iff.mp found
  rw [← List.drop_eq_getElem_cons inside, List.take_append_drop]

/-- If two entries of an order belong to one component, so do those in
between. -/
theorem Unfolds.consecutive
    {order : List String}
    (unfolds : pattern.Unfolds order)
    {first middle last : Nat}
    (before : first ≤ middle)
    (after : middle ≤ last)
    (firstName : order[first]? = some left)
    (middleName : order[middle]? = some name)
    (lastName : order[last]? = some right)
    (same : pattern.component left = pattern.component right) :
    pattern.component name = pattern.component right := by
  induction last generalizing right with
  | zero =>
      rw [Nat.le_zero.mp after, lastName] at middleName
      rw [Option.some.inj middleName]
  | succ last inductionHypothesis =>
      rcases Nat.lt_or_eq_of_le after with earlier | rfl
      · have inside := (List.getElem?_eq_some_iff.mp lastName).1
        have previous : order[last]? = some order[last] :=
          List.getElem?_eq_getElem _
        rcases unfolds.getElem? lastName with continues | opens
        · have ends : (order.take (last + 1)).getLast? = some order[last] := by
            rw [List.take_add_one, previous]
            exact List.getLast?_concat
          rw [← continues.component ends] at same ⊢
          exact inductionHypothesis (by omega) previous same
        · refine absurd same (opens left ?_)
          exact List.mem_of_getElem?
            (getElem?_take_eq_some.mpr ⟨by omega, firstName⟩)
      · rw [middleName] at lastName
        rw [Option.some.inj lastName]

/-- A variable is joined to the entries before it exactly if it opens no
component. -/
theorem Unfolds.opens_iff
    {order : List String}
    (unfolds : pattern.Unfolds order)
    {index : Nat}
    (found : order[index]? = some name) :
    pattern.Opens (order.take index) name ↔
      ¬ ∃ entry ∈ order.take index, pattern.adjacent name entry := by
  constructor
  · rintro opens ⟨entry, member, joined⟩
    exact opens entry member (component_eq_of_adjacent joined).symm
  · intro apart
    exact (unfolds.getElem? found).resolve_left fun continues =>
      apart continues.joined

end Pattern

end DeltaGraph
