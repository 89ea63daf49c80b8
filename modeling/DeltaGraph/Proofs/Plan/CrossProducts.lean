import DeltaGraph.Proofs.Pattern.Components
import DeltaGraph.Proofs.Plan.OfPattern
import Mathlib.Data.Set.Card

/-!
# Cross products

A stage without rules pairs what is bound so far with every vertex.  Plans have
such stages only between components: a stage is empty exactly if the variable
that it binds is the first of its component.
-/

namespace DeltaGraph

/-! ## The order of a plan -/

namespace PlanContext

variable {context : PlanContext}

theorem returns_plan (order : List String) (difference : Option Difference)
    (readAs : Nat → Except Error Version) :
    StepReturns (fun plan : Plan => plan.order = order)
      (context.plan order difference readAs) :=
  .bind fun _ =>
    .bind fun _ => .bind fun _ => .bind fun _ => .bind fun _ => .pure rfl

/-- The order of a delta plan is that after the ends of its relation. -/
def Orders
    (context : PlanContext)
    (pattern : Pattern)
    (delta : DeltaPlan) : Prop :=
  ∃ relation, pattern.relations[delta.relation]? = some relation ∧
    delta.plan.order =
      context.incidence.orderAfter [relation.source, relation.target]

theorem returns_deltasOf
    {pattern : Pattern}
    (versions : RelationVersions)
    {index : Nat}
    {relation : Relation}
    (found : pattern.relations[index]? = some relation) :
    StepReturns (fun deltas => ∀ delta ∈ deltas, context.Orders pattern delta)
      (context.deltasOf versions index relation) := by
  refine .mapM fun version => ?_
  refine (returns_plan _ _ _).bind_of fun plan order => ?_
  exact .pure ⟨relation, found, order⟩

theorem returns_deltasFrom
    {pattern : Pattern}
    (versions : RelationVersions)
    (index : Nat)
    (relations : List Relation)
    (rest : pattern.relations.drop index = relations) :
    StepReturns (fun deltas => ∀ delta ∈ deltas, context.Orders pattern delta)
      (context.deltasFrom versions index relations) := by
  induction relations generalizing versions index with
  | nil => exact .pure fun _ member => absurd member List.not_mem_nil
  | cons relation relations inductionHypothesis =>
      have found : pattern.relations[index]? = some relation := by
        rw [← List.head?_drop, rest]
        rfl
      have restLater : pattern.relations.drop (index + 1) = relations := by
        rw [← List.tail_drop, rest]
        rfl
      refine (returns_deltasOf _ found).bind_of fun deltas first => ?_
      refine (inductionHypothesis _ _ restLater).bind_of fun others later => ?_
      exact .pure (List.forall_mem_append.mpr ⟨first, later⟩)

end PlanContext

theorem StandingPlan.returns_ofPattern (pattern : Pattern) :
    StepReturns (fun standing => ∀ delta ∈ standing.deltas, ∃ relation,
        pattern.relations[delta.relation]? = some relation ∧ delta.plan.order =
          (Incidence.ofPattern pattern).orderAfter
            [relation.source, relation.target])
      (StandingPlan.ofPattern pattern) := by
  refine (PlanContext.returns_ofPattern pattern).bind_of
    fun context ⟨_, about⟩ => ?_
  refine (PlanContext.returns_deltasFrom _ 0 pattern.relations rfl).bind_of
    fun deltas each => ?_
  refine .pure ?_
  rw [← about]
  exact each

/-! ## Empty stages -/

/-- Which variables the rules of a stage read, and which relations they are
for. -/
theorem EdgeLookup.Reads.joins
    {lookup : EdgeLookup}
    {pattern : Pattern}
    {catalog : Catalog}
    {order : List String}
    {reading : Nat → Version}
    {relation : Relation}
    {index slot : Nat}
    {rule : Rule}
    (reads : lookup.Reads slot rule)
    (renders : lookup.Renders order catalog reading relation index)
    (member : relation ∈ pattern.relations)
    {name : String}
    (bound : order[slot]? = some name) :
    ∃ entry, order[rule.slot]? = some entry ∧ pattern.adjacent name entry := by
  cases reads with
  | forward =>
      have target := renders.target
      rw [bound] at target
      exact ⟨_, renders.source, Pattern.adjacent_iff.mpr
        ⟨relation, member, .inr ⟨rfl, (Option.some.inj target).symm⟩⟩⟩
  | backward =>
      have source := renders.source
      rw [bound] at source
      exact ⟨_, renders.target, Pattern.adjacent_iff.mpr
        ⟨relation, member, .inl ⟨(Option.some.inj source).symm, rfl⟩⟩⟩

namespace Plan

variable {plan : Plan} {pattern : Pattern} {catalog : Catalog}
  {reading : Nat → Version}

/-- A stage is empty exactly if no relation joins its variable to an earlier
one. -/
theorem Implements.stage_eq_nil_iff
    (implements : plan.Implements pattern catalog reading)
    {index : Nat}
    {stage : Stage}
    {name : String}
    (found : plan.stages[index]? = some stage)
    (bound : plan.order[index + 1]? = some name) :
    stage = [] ↔
      ¬ ∃ entry ∈ plan.order.take (index + 1), pattern.adjacent name entry := by
  constructor
  · rintro rfl ⟨entry, member, joined⟩
    obtain ⟨slot, taken⟩ := List.getElem?_of_mem member
    obtain ⟨before, near⟩ := getElem?_take_eq_some.mp taken
    obtain ⟨relation, used, ends⟩ := Pattern.adjacent_iff.mp joined
    obtain ⟨place, listed⟩ := List.getElem?_of_mem used
    obtain ⟨lookup, looked, renders⟩ :=
      exists_right_of_forall₂ implements.lookups
      (List.mem_zipIdx_iff_getElem?.mpr listed : (relation, place) ∈ _)
    -- The ends of the relation are bound at the slots of the entry and of the
    -- variable.
    have later : max lookup.source lookup.target = index + 1 := by
      have unique {slot other : Nat} {name : String}
          (here : plan.order[slot]? = some name)
          (there : plan.order[other]? = some name) : slot = other :=
        slot_unique implements.different here there
      rcases ends with ⟨rfl, rfl⟩ | ⟨rfl, rfl⟩
      · rw [unique renders.source bound, unique renders.target near]
        omega
      · rw [unique renders.source near, unique renders.target bound]
        omega
    obtain ⟨there, stage, rule, present, listed, reads⟩ :=
      implements.wellFormed.lookups lookup looked
    have inside := (implements.wellFormed.rules present listed).1
    have same := (reads.eq_rule (Nat.lt_succ_of_le inside)).2
    rw [later, Nat.succ_inj] at same
    rw [← same, found] at present
    cases present
    cases listed
  · intro apart
    refine List.eq_nil_iff_forall_not_mem.mpr fun rule member => apart ?_
    obtain ⟨before, lookup, looked, reads⟩ :=
      implements.wellFormed.rules found member
    obtain ⟨⟨relation, place⟩, listed, renders⟩ :=
      exists_left_of_forall₂ implements.lookups looked
    obtain ⟨entry, near, joined⟩ :=
      reads.joins renders (List.fst_mem_of_mem_zipIdx listed) bound
    exact ⟨entry,
      List.mem_of_getElem? (getElem?_take_eq_some.mpr ⟨by omega, near⟩), joined⟩

/-- As many stages are empty as components are opened after the first. -/
theorem countP_isEmpty_add_ncard
    {stages : List Stage}
    (seen : List String)
    {names : List String}
    (length : stages.length = names.length)
    (opens : ∀ (index : Nat) stage name, stages[index]? = some stage →
      names[index]? = some name →
      (stage = [] ↔ pattern.Opens (seen ++ names.take index) name)) :
    stages.countP List.isEmpty +
      (pattern.component '' {name | name ∈ seen}).ncard =
      (pattern.component '' {name | name ∈ seen ++ names}).ncard := by
  induction names generalizing stages seen with
  | nil =>
      rw [List.length_nil, List.length_eq_zero_iff] at length
      simp [length]
  | cons name names inductionHypothesis =>
      cases stages with
      | nil => cases length
      | cons stage stages =>
          have here : stage = [] ↔ pattern.Opens seen name := by
            simpa using opens 0 stage name rfl rfl
          have later :=
            inductionHypothesis (seen ++ [name]) (Nat.succ.inj length)
            fun index stage other found bound => by
              simpa using opens (index + 1) stage other found bound
          have more :
              {other | other ∈ seen ++ [name]} =
                insert name {other | other ∈ seen} := by
            ext other
            simp [or_comm]
          have finite : (pattern.component '' {other | other ∈ seen}).Finite :=
            seen.finite_toSet.image _
          rw [List.append_assoc, List.singleton_append, more,
            Set.image_insert_eq] at later
          rw [← later, List.countP_cons]
          by_cases first : pattern.Opens seen name
          · have new :
                pattern.component name ∉
                  pattern.component '' {other | other ∈ seen} := by
              rintro ⟨other, member, same⟩
              exact first other member same
            rw [Set.ncard_insert_of_notMem new finite, here.mpr first]
            simp only [List.isEmpty_nil, if_true]
            omega
          · have known :
                pattern.component name ∈
                  pattern.component '' {other | other ∈ seen} := by
              simpa [Pattern.Opens] using first
            rw [Set.insert_eq_of_mem known,
              if_neg (by simpa using mt here.mp first)]
            omega

/-- The components of the variables follow one another in the order of the plan,
and the stages that open one, but for the first of all, are the empty ones. -/
structure JoinsComponents (plan : Plan) (pattern : Pattern) : Prop where
  different : plan.order.Nodup
  mem_order (name : String) : name ∈ plan.order ↔ name ∈ pattern.variableNames
  consecutive {first middle last : Nat} {left name right : String}
    (before : first ≤ middle) (after : middle ≤ last)
    (firstName : plan.order[first]? = some left)
    (middleName : plan.order[middle]? = some name)
    (lastName : plan.order[last]? = some right)
    (same : pattern.component left = pattern.component right) :
    pattern.component name = pattern.component right
  stages : plan.stages.length + 1 = plan.order.length
  opens {index : Nat} {stage : Stage} {name : String}
    (found : plan.stages[index]? = some stage)
    (bound : plan.order[index + 1]? = some name) :
    stage = [] ↔ pattern.Opens (plan.order.take (index + 1)) name
  first : ∃ rule others rest, plan.stages = (rule :: others) :: rest
  empty : plan.stages.countP List.isEmpty + 1 = pattern.components.ncard

theorem Implements.joinsComponents
    (implements : plan.Implements pattern catalog reading)
    (unfolds : pattern.Unfolds plan.order) :
    plan.JoinsComponents pattern := by
  have opens {index : Nat} {stage : Stage} {name : String}
      (found : plan.stages[index]? = some stage)
      (bound : plan.order[index + 1]? = some name) :
      stage = [] ↔ pattern.Opens (plan.order.take (index + 1)) name :=
    (implements.stage_eq_nil_iff found bound).trans
      (unfolds.opens_iff bound).symm
  have count := implements.wellFormed.stages
  constructor
  case different => exact implements.different
  case mem_order => exact implements.mem_order
  case consecutive => exact unfolds.consecutive
  case stages => exact count
  case opens => exact opens
  case first => exact implements.wellFormed.start
  case empty =>
    have bound :
        {name | name ∈ pattern.variableNames} = {name | name ∈ plan.order} :=
      Set.ext fun name => (implements.mem_order name).symm
    rw [Pattern.components, bound]
    cases split : plan.order with
    | nil =>
        rw [split] at count
        cases count
    | cons first later =>
        rw [split, List.length_cons, Nat.add_right_cancel_iff] at count
        have counted := countP_isEmpty_add_ncard [first] count
          fun index stage name found bound => by
            simpa [split] using opens found (by simpa [split] using bound)
        simpa using counted

end Plan

/-- Only between components do the plans of an accepted pattern form cross
products.  The first component of a delta plan is that of its relation. -/
theorem Pattern.plans_join_components
    {pattern : Pattern}
    (accepted : pattern.validate = .ok ())
    (catalog : Catalog) :
    (∃ plan later, Plan.ofPattern pattern catalog = (.ok plan, later) ∧
      plan.JoinsComponents pattern) ∧
    ∃ standing later,
      StandingPlan.ofPattern pattern catalog = (.ok standing, later) ∧
      ∀ delta ∈ standing.deltas, delta.plan.JoinsComponents pattern ∧
        ∃ relation rest, pattern.relations[delta.relation]? = some relation ∧
          delta.plan.order = relation.source :: relation.target :: rest ∧
          pattern.component relation.source =
            pattern.component relation.target := by
  have faultless := Pattern.fault?_of_validate accepted
  constructor
  · obtain ⟨plan, later, run, _, implements, _⟩ :=
      Plan.run_ofPattern faultless catalog
    refine ⟨plan, later, run, implements.joinsComponents ?_⟩
    rw [Plan.order_of_ofPattern faultless run]
    exact Pattern.unfolds_order pattern
  · obtain ⟨standing, later, run, _, implements⟩ :=
      StandingPlan.run_ofPattern faultless catalog
    refine ⟨standing, later, run, fun delta member => ?_⟩
    obtain ⟨relation, found, order⟩ :=
      StandingPlan.returns_ofPattern pattern catalog standing later run delta
        member
    have used := List.mem_of_getElem? found
    obtain ⟨_, _, starts⟩ := exists_left_of_forall₂ implements member
    obtain ⟨rest, split⟩ :=
      (Incidence.ofPattern pattern).prefix_orderAfter
        [relation.source, relation.target]
    refine ⟨starts.plan.joinsComponents ?_, relation, rest, found,
      order.trans split.symm, ?_⟩
    · rw [order]
      exact Pattern.unfolds_orderAfter_ends used
    · exact Pattern.component_eq_of_adjacent
        (Pattern.adjacent_iff.mpr ⟨relation, used, .inl ⟨rfl, rfl⟩⟩)

/-- Of two components, the one with the variable of the largest degree comes
first. -/
theorem Pattern.plans_join_two_components :
    let pattern : Pattern :=
      { declared :=
        [⟨"a", none⟩, ⟨"b", none⟩, ⟨"c", none⟩, ⟨"d", none⟩, ⟨"e", none⟩]
        relations :=
          [⟨"a", "b", none, none⟩, ⟨"c", "d", none, none⟩,
            ⟨"d", "e", none, none⟩] }
    pattern.validate = .ok () ∧ pattern.components.ncard = 2 ∧
      (∃ plan later, Plan.ofPattern pattern {} = (.ok plan, later) ∧
        plan.order = ["d", "c", "e", "a", "b"] ∧
        plan.stages.map List.isEmpty = [false, false, true, false]) ∧
      ∃ standing later,
        StandingPlan.ofPattern pattern {} = (.ok standing, later) ∧
        ∀ delta ∈ standing.deltas, delta.plan.JoinsComponents pattern := by
  intro pattern
  have accepted : pattern.validate = .ok () := by decide +kernel
  obtain ⟨⟨plan, later, run, joins⟩, standing, last, runDeltas, each⟩ :=
    Pattern.plans_join_components accepted {}
  have known : (Plan.ofPattern pattern {}).1.toOption.map
      (fun plan => (plan.order, plan.stages.map List.isEmpty)) =
      some (["d", "c", "e", "a", "b"], [false, false, true, false]) := by
        decide +kernel
  rw [run] at known
  obtain ⟨order, stages⟩ := Prod.mk.inj (Option.some.inj known)
  have empty : plan.stages.countP List.isEmpty = 1 := by
    have mapped :=
      List.countP_map (p := id) (f := List.isEmpty) (l := plan.stages)
    rw [stages] at mapped
    exact mapped.symm
  have count := joins.empty
  rw [empty] at count
  exact ⟨accepted, count.symm, ⟨plan, later, run, order, stages⟩, standing,
    last, runDeltas, fun delta member => (each delta member).1⟩

end DeltaGraph
