import DeltaGraph.Proofs.Plan.Planning

/-!
# Where relations are read

The stages of a plan hold one rule for each relation.  It stands at the stage
that binds the later of the ends of its relation and reads from the earlier one.
The rule of the difference leads; the other rules of a stage are in the order of
the slots that they read from, and then of the declarations.
-/

namespace DeltaGraph

namespace EdgeLookup

/-- The rule that reads the relation from the end that is bound first. -/
def rule (lookup : EdgeLookup) : Rule where
  slot := min lookup.source lookup.target
  direction := if lookup.source < lookup.target then .forward else .backward
  version := lookup.version
  type := lookup.type

/-- A rule that reads from an earlier slot stands at the later one. -/
theorem Reads.eq_rule {lookup : EdgeLookup} {slot : Nat} {rule : Rule}
    (reads : lookup.Reads slot rule) (before : rule.slot < slot) :
    rule = lookup.rule ∧ max lookup.source lookup.target = slot := by
  cases reads with
  | forward =>
      have less : lookup.source < lookup.target := before
      have order := Nat.le_of_lt less
      exact ⟨by simp [EdgeLookup.rule, less, Nat.min_eq_left order],
        Nat.max_eq_right order⟩
  | backward =>
      have less : lookup.target < lookup.source := before
      have order := Nat.le_of_lt less
      exact ⟨by
        simp [EdgeLookup.rule, Nat.not_lt.mpr order, Nat.min_eq_right order],
          Nat.max_eq_left order⟩

end EdgeLookup

/-- The slot that the rule of a relation reads from comes first, or else the
slots are the same and the relation is declared first. -/
def Plan.ReadsBefore (plan : Plan) (left right : Nat) : Prop :=
  ∀ lookup other, plan.lookups[left]? = some lookup →
    plan.lookups[right]? = some other →
    lookup.rule.slot < other.rule.slot ∨
      lookup.rule.slot = other.rule.slot ∧ left < right

/-- The relations that the rules of each stage read, in the order of the
rules. -/
structure Plan.Placement
    (plan : Plan)
    (first : Option Nat)
    (placed : List (List Nat)) :
    Prop where
  rules : List.Forall₂ (List.Forall₂ fun relation rule =>
    ∃ lookup, plan.lookups[relation]? = some lookup ∧ rule = lookup.rule) placed
      plan.stages
  once : placed.flatten.Perm (List.range plan.lookups.length)
  stage {index relation : Nat} {relations : List Nat} {lookup : EdgeLookup}
    (stage : placed[index]? = some relations) (member : relation ∈ relations)
    (looked : plan.lookups[relation]? = some lookup) :
    max lookup.source lookup.target = index + 1
  leads {relation : Nat} (given : first = some relation) :
    ∃ others later, placed = (relation :: others) :: later
  ordered {relations : List Nat} (stage : relations ∈ placed) :
    (relations.filter (first ≠ some ·)).Pairwise plan.ReadsBefore

/-- The relations that join two variables are in the order of declaration. -/
theorem Incidence.pairwise_relationsJoining
    {pattern : Pattern}
    (valid : pattern.Valid)
    (left right : String) :
    ((Incidence.ofPattern pattern).relationsJoining left right).Pairwise
      (· < ·) := by
  by_cases same : left = right
  · subst same
    have none :
        (Incidence.ofPattern pattern).relationsJoining left left = [] := by
      refine List.eq_nil_iff_forall_not_mem.mpr fun index member => ?_
      obtain ⟨relation, found, ⟨near, far⟩ | ⟨near, far⟩⟩ :=
        mem_relationsJoining.mp member
      · exact valid.ends (List.mem_of_getElem? found) (near.trans far.symm)
      · exact valid.ends (List.mem_of_getElem? found) (far.trans near.symm)
    rw [none]
    exact .nil
  · exact pairwise_relationsJoining_of_ne same

namespace PlanContext

variable {context : PlanContext} {pattern : Pattern} {catalog : Catalog}
  {difference : Option Difference} {readAs : Nat → Except Error Version}
  {reading : Nat → Version} {order : List String} {lookups : List EdgeLookup}

/-- The relations that are read from bound variables are in the order of the
slots, and then of the declarations. -/
theorem pairwise_readings
    (of : context.Of pattern catalog)
    (valid : pattern.Valid)
    (difference : Option Difference)
    (bound : List String)
    (target : String) :
    (context.readings difference bound target).Pairwise fun read later =>
      read.slot < later.slot ∨
        read.slot = later.slot ∧ read.relation < later.relation := by
  rw [readings, List.pairwise_flatMap]
  constructor
  · rintro ⟨name, slot⟩ _
    rw [List.pairwise_map, of.incidence]
    refine ((Incidence.pairwise_relationsJoining valid name target).filter
      _).imp ?_
    exact fun less => .inr ⟨rfl, less⟩
  · refine (pairwise_zipIdx bound).imp ?_
    rintro ⟨name, slot⟩ ⟨other, later⟩ before first inFirst second inSecond
    obtain ⟨_, _, rfl⟩ := List.mem_map.mp inFirst
    obtain ⟨_, _, rfl⟩ := List.mem_map.mp inSecond
    exact .inl before

theorem relation_of_mem_leading {bound : List String} {relation : Nat}
    (leads : relation ∈ leading difference bound) :
    difference.map Difference.relation = some relation := by
  unfold leading at leads
  split at leads
  · split at leads
    · rw [List.mem_singleton.mp leads, Option.map_some]
    · cases leads
  · cases leads

theorem nodup_leading (difference : Option Difference) (bound : List String) :
    (leading difference bound).Nodup := by
  unfold leading
  split
  · split <;> simp
  · exact List.nodup_nil

/-- The relations that the rules of each stage read. -/
def placedOf
    (context : PlanContext)
    (difference : Option Difference)
    (order : List String) :
    List (List Nat) :=
  order.tail.zipIdx.map fun (target, index) =>
    context.placedAt difference (order.take (index + 1)) target

theorem getElem?_placedOf
    (context : PlanContext)
    (difference : Option Difference)
    (order : List String)
    (index : Nat) :
    (context.placedOf difference order)[index]? =
      (order[index + 1]?).map fun target =>
        context.placedAt difference (order.take (index + 1)) target := by
  simp only [placedOf, List.getElem?_map, List.getElem?_zipIdx,
    List.getElem?_tail, Nat.zero_add, Option.map_map]
  rfl

theorem placedAt_of_getElem? {index : Nat} {relations : List Nat}
    (found : (context.placedOf difference order)[index]? = some relations) :
    ∃ target, order[index + 1]? = some target ∧
      relations =
        context.placedAt difference (order.take (index + 1)) target := by
  rw [getElem?_placedOf, Option.map_eq_some_iff] at found
  obtain ⟨target, bound, rfl⟩ := found
  exact ⟨target, bound, rfl⟩

section

variable {plan : Plan} (of : context.Of pattern catalog) (valid : pattern.Valid)
  (forOrder : OrderFor pattern difference order)
  (reads : Reads pattern difference readAs reading)
  (lays : context.Lays pattern catalog difference reading order plan)

include of valid forOrder reads lays

/-- The rules at a stage are those of the relations that are placed there. -/
theorem rules_placedAt
    {index : Nat}
    {target : String}
    (bound : order[index + 1]? = some target) :
    List.Forall₂
      (fun relation rule => ∃ lookup, plan.lookups[relation]? = some lookup ∧
        rule = lookup.rule ∧ max lookup.source lookup.target = index + 1)
      (context.placedAt difference (order.take (index + 1)) target)
      (context.rulesOf difference reading (order.take (index + 1)) target) :=
  (reads_placedAt of valid forOrder reads lays.looks bound).imp
    fun _ _ ⟨before, lookup, looked, reading⟩ =>
      ⟨lookup, looked, reading.eq_rule (Nat.lt_succ_of_le before)⟩

theorem stage_of_mem_placedAt
    {index relation : Nat}
    {target : String}
    (bound : order[index + 1]? = some target)
    (placed : relation ∈
      context.placedAt difference (order.take (index + 1)) target) :
    ∃ lookup, plan.lookups[relation]? = some lookup ∧
      max lookup.source lookup.target = index + 1 := by
  obtain ⟨_, _, lookup, looked, _, stage⟩ :=
    exists_right_of_forall₂ (rules_placedAt of valid forOrder reads lays bound)
      placed
  exact ⟨lookup, looked, stage⟩

omit reads in
theorem readsBefore_readings {index : Nat} {target : String}
    (bound : order[index + 1]? = some target) :
    ((context.readings difference (order.take (index + 1)) target).map
      Reading.relation).Pairwise plan.ReadsBefore := by
  have slot {read : Reading} {lookup : EdgeLookup}
      (listed : read ∈
        context.readings difference (order.take (index + 1)) target)
      (looked : plan.lookups[read.relation]? = some lookup) :
        lookup.rule.slot = read.slot := by
    obtain ⟨before, found, same, reading⟩ :=
      reads_of_mem_readings of valid forOrder lays.looks bound listed
    rw [looked] at same
    cases same
    rw [← (reading.eq_rule (Nat.lt_succ_of_le before)).1]
  rw [List.pairwise_map]
  refine (pairwise_readings of valid difference _ target).imp_of_mem ?_
  intro read later listed listedLater before lookup other looked otherLooked
  rw [slot listed looked, slot listedLater otherLooked]
  exact before

theorem nodup_placedAt {index : Nat} {target : String}
    (bound : order[index + 1]? = some target) :
    (context.placedAt difference (order.take (index + 1)) target).Nodup := by
  refine List.nodup_append.mpr ⟨nodup_leading difference _, ?_, ?_⟩
  · refine (readsBefore_readings of valid forOrder lays bound).imp_of_mem ?_
    rintro relation _ placed _ before rfl
    obtain ⟨lookup, looked, _⟩ :=
      stage_of_mem_placedAt of valid forOrder reads lays bound
        (List.mem_append_right _ placed)
    have absurd := before lookup lookup looked looked
    omega
  · intro relation first other listed
    rintro rfl
    obtain ⟨read, member, rfl⟩ := List.mem_map.mp listed
    obtain ⟨_, _, _, _, _, apart, _⟩ := (mem_readings of read).mp member
    obtain ⟨start, given, leads⟩ :=
      Option.map_eq_some_iff.mp (relation_of_mem_leading first)
    exact apart start given leads

/-- Different stages hold different relations, and together they hold all. -/
theorem placed_once :
    (context.placedOf difference order).flatten.Perm
      (List.range plan.lookups.length) := by
  have different : (context.placedOf difference order).flatten.Nodup := by
    refine List.nodup_flatten.mpr ⟨fun relations member => ?_, ?_⟩
    · obtain ⟨index, found⟩ := List.getElem?_of_mem member
      obtain ⟨target, bound, rfl⟩ := placedAt_of_getElem? found
      exact nodup_placedAt of valid forOrder reads lays bound
    · refine List.pairwise_iff_getElem.mpr
        fun index later inside laterInside before => ?_
      obtain ⟨target, bound, here⟩ :=
        placedAt_of_getElem? (List.getElem?_eq_getElem inside)
      obtain ⟨other, laterBound, there⟩ :=
        placedAt_of_getElem? (List.getElem?_eq_getElem laterInside)
      rw [here, there]
      intro relation placed placedLater
      obtain ⟨lookup, looked, stage⟩ :=
        stage_of_mem_placedAt of valid forOrder reads lays bound placed
      obtain ⟨_, same, laterStage⟩ :=
        stage_of_mem_placedAt of valid forOrder reads lays laterBound
          placedLater
      rw [looked] at same
      cases same
      omega
  refine (List.perm_ext_iff_of_nodup different List.nodup_range).mpr
    fun relation => ?_
  rw [List.mem_range, List.mem_flatten]
  constructor
  · rintro ⟨relations, member, placed⟩
    obtain ⟨index, found⟩ := List.getElem?_of_mem member
    obtain ⟨target, bound, rfl⟩ := placedAt_of_getElem? found
    obtain ⟨lookup, looked, _⟩ :=
      stage_of_mem_placedAt of valid forOrder reads lays bound placed
    exact (List.getElem?_eq_some_iff.mp looked).1
  · intro below
    obtain ⟨index, target, bound, placed⟩ :=
      relation_placed of valid forOrder reads lays.looks
        (List.getElem?_eq_getElem below)
    refine ⟨_, List.mem_of_getElem? (i := index) ?_, placed⟩
    rw [getElem?_placedOf, bound]
    rfl

/-- Every relation is placed once, its rule standing at the stage of its later
end. -/
theorem placement : plan.Placement (difference.map Difference.relation)
    (context.placedOf difference order) := by
  constructor
  case rules =>
    refine forall₂_of_getElem? ?_ fun index relations stage found rules => ?_
    · simp [placedOf, lays.stages, length_stagesOf]
    · obtain ⟨target, bound, rfl⟩ := placedAt_of_getElem? found
      rw [lays.stages, getElem?_stagesOf_order, bound, Option.map_some] at rules
      cases rules
      exact (rules_placedAt of valid forOrder reads lays bound).imp
        fun _ _ ⟨lookup, looked, same, _⟩ => ⟨lookup, looked, same⟩
  case once => exact placed_once of valid forOrder reads lays
  case stage =>
    intro index relation relations lookup found member looked
    obtain ⟨target, bound, rfl⟩ := placedAt_of_getElem? found
    obtain ⟨_, same, stage⟩ :=
      stage_of_mem_placedAt of valid forOrder reads lays bound member
    rw [looked] at same
    cases same
    exact stage
  case leads =>
    intro relation given
    obtain ⟨start, rfl, rfl⟩ := Option.map_eq_some_iff.mp given
    obtain ⟨first, second, rest, _, _, rfl, _⟩ := forOrder.start
    exact ⟨_, _, rfl⟩
  case ordered =>
    intro relations member
    obtain ⟨index, found⟩ := List.getElem?_of_mem member
    obtain ⟨target, bound, rfl⟩ := placedAt_of_getElem? found
    have ordered := readsBefore_readings of valid forOrder lays bound
    unfold placedAt
    rw [List.filter_append, List.filter_eq_nil_iff.mpr ?_, List.nil_append]
    · exact ordered.filter _
    · intro relation first
      simp [relation_of_mem_leading first]

end

end PlanContext

end DeltaGraph
