import DeltaGraph.Proofs.Plan.Stages

/-!
# Planning succeeds

The plan of a valid pattern implements it, for every order that binds each
variable once and starts with two variables that the first rule joins.
-/

namespace DeltaGraph

theorem Relation.length_names (ordinal : Nat) (relations : List Relation) :
    (names ordinal relations).length = relations.length := by
  induction relations generalizing ordinal with
  | nil => rfl
  | cons relation rest inductionHypothesis =>
      rw [names]
      cases relation.name <;> simp [inductionHypothesis]

/-- A variable stands at one slot of an order without repetitions. -/
theorem slot_unique
    {order : List String}
    (different : order.Nodup)
    {slot other : Nat}
    {name : String}
    (found : order[slot]? = some name)
    (otherFound : order[other]? = some name) :
    slot = other := by
  have below := (List.getElem?_eq_some_iff.mp found).1
  exact (List.getElem?_inj below different).mp (found.trans otherFound.symm)

/-- An order that binds every variable of a pattern once, and first two
variables that are joined by the difference, or else by some relation. -/
structure OrderFor
    (pattern : Pattern)
    (difference : Option Difference)
    (order : List String) :
    Prop where
  different : order.Nodup
  complete (name : String) : name ∈ order ↔ name ∈ pattern.variableNames
  start : ∃ first second rest index relation, order = first :: second :: rest ∧
    pattern.relations[index]? = some relation ∧
    (relation.source = first ∧ relation.target = second ∨
      relation.target = first ∧ relation.source = second) ∧
    ∀ start, difference = some start →
      start.relation = index ∧ relation.source = first

namespace PlanContext

variable {context : PlanContext} {pattern : Pattern} {catalog : Catalog}
  {difference : Option Difference} {readAs : Nat → Except Error Version}
  {reading : Nat → Version} {order : List String} {lookups : List EdgeLookup}

/-- The look-ups of all relations, which have the types of the context. -/
def Looks
    (context : PlanContext)
    (pattern : Pattern)
    (catalog : Catalog)
    (reading : Nat → Version)
    (order : List String)
    (lookups : List EdgeLookup) : Prop :=
  List.Forall₂
    (fun entry lookup => lookup.Renders order catalog reading entry.1 entry.2 ∧
      lookup.type = context.relationType? entry.2) pattern.relations.zipIdx
      lookups

/-- Each relation of a pattern has its lookup at its own place. -/
theorem Looks.getElem?
    (looks : context.Looks pattern catalog reading order lookups)
    {index : Nat}
    {relation : Relation}
    (found : pattern.relations[index]? = some relation) :
    ∃ lookup, lookups[index]? = some lookup ∧
      lookup.Renders order catalog reading relation index ∧
      lookup.type = context.relationType? index := by
  obtain ⟨below, rfl⟩ := List.getElem?_eq_some_iff.mp found
  have entry : index < pattern.relations.zipIdx.length := by simpa using below
  have inside : index < lookups.length := looks.length_eq ▸ entry
  refine ⟨lookups[index], List.getElem?_eq_getElem inside, ?_⟩
  have renders := looks.get entry inside
  simp only [List.get_eq_getElem, List.getElem_zipIdx, Nat.zero_add] at renders
  exact renders

/-- Each lookup renders the relation at its place. -/
theorem Looks.of_lookup
    (looks : context.Looks pattern catalog reading order lookups)
    {index : Nat}
    {lookup : EdgeLookup}
    (looked : lookups[index]? = some lookup) :
    ∃ relation, pattern.relations[index]? = some relation ∧
      lookup.Renders order catalog reading relation index ∧
      lookup.type = context.relationType? index := by
  have below := (List.getElem?_eq_some_iff.mp looked).1
  have declared : index < pattern.relations.length := by
    rw [← looks.length_eq, List.length_zipIdx] at below
    exact below
  obtain ⟨found, same, renders⟩ :=
    looks.getElem? (List.getElem?_eq_getElem declared)
  rw [looked] at same
  cases same
  exact ⟨_, List.getElem?_eq_getElem declared, renders⟩

theorem getElem?_stagesOf_order
    (context : PlanContext)
    (difference : Option Difference)
    (reading : Nat → Version)
    (order : List String)
    (index : Nat) :
    (context.stagesOf difference reading (order.take 1)
      (order.drop 1))[index]? =
      (order[index + 1]?).map fun target =>
        context.rulesOf difference reading (order.take (index + 1)) target := by
  rw [getElem?_stagesOf, List.getElem?_drop, Nat.add_comm index 1,
    List.take_add]

theorem directionFrom_eq
    (of : context.Of pattern catalog)
    {index : Nat}
    {relation : Relation}
    (found : pattern.relations[index]? = some relation)
    (name : String) :
    context.directionFrom name index =
      if relation.source = name then .forward else .backward := by
  simp [directionFrom, of.about, found]

/-- The rule of a reading reads its relation. -/
theorem reads_of_reading
    (of : context.Of pattern catalog)
    (valid : pattern.Valid)
    (different : order.Nodup)
    {lookup : EdgeLookup}
    {index slot target : Nat}
    {relation : Relation}
    {name : String}
    (found : pattern.relations[index]? = some relation)
    (renders : lookup.Renders order catalog reading relation index)
    (type : lookup.type = context.relationType? index)
    (near : order[slot]? = some name)
    (far : (relation.source = name ∧ order[target]? = some relation.target) ∨
      (relation.target = name ∧ order[target]? = some relation.source)) :
    lookup.Reads target ⟨slot, context.directionFrom name index, reading index,
      context.relationType? index⟩ := by
  have ends := valid.ends (List.mem_of_getElem? found)
  rw [directionFrom_eq of found, ← renders.version, ← type]
  rcases far with ⟨rfl, far⟩ | ⟨rfl, far⟩
  · rw [if_pos rfl, slot_unique different near renders.source,
      slot_unique different far renders.target]
    exact .forward
  · rw [if_neg ends, slot_unique different near renders.target,
      slot_unique different far renders.source]
    exact .backward

/-- The rule of the difference reads its relation. -/
theorem reads_of_difference
    (forOrder : OrderFor pattern difference order)
    (reads : Reads pattern difference readAs reading)
    {start : Difference}
    (given : difference = some start)
    {relation : Relation}
    {lookup : EdgeLookup}
    (found : pattern.relations[start.relation]? = some relation)
    (renders : lookup.Renders order catalog reading relation start.relation)
    (type : lookup.type = context.relationType? start.relation) :
    order[1]? = some relation.target ∧ lookup.Reads 1
      ⟨0, .forward, start.version, context.relationType? start.relation⟩ := by
  obtain ⟨first, second, rest, index, other, rfl, otherFound, joins, begins⟩ :=
    forOrder.start
  obtain ⟨rfl, source⟩ := begins start given
  rw [found] at otherFound
  cases otherFound
  have version : reading start.relation = start.version := by
    have resolved := reads.resolved found
    rw [given, resolvedVersion, if_pos rfl] at resolved
    exact (Except.ok.inj resolved).symm
  have target : relation.target = second := by
    rcases joins with ⟨_, same⟩ | ⟨same, other⟩
    · exact same
    · have distinct := forOrder.different
      rw [← other, ← source] at distinct
      simp at distinct
  have firstSlot : (first :: second :: rest)[0]? = some relation.source := by
    rw [source]
    rfl
  have secondSlot : (first :: second :: rest)[1]? = some relation.target := by
    rw [target]
    rfl
  refine ⟨secondSlot, ?_⟩
  rw [← version, ← renders.version, ← type,
    slot_unique forOrder.different firstSlot renders.source,
    slot_unique forOrder.different secondSlot renders.target]
  exact .forward

/-- The rule of a reading at a stage reads its relation from a variable bound
before. -/
theorem reads_of_mem_readings
    (of : context.Of pattern catalog)
    (valid : pattern.Valid)
    (forOrder : OrderFor pattern difference order)
    (looks : context.Looks pattern catalog reading order lookups)
    {index : Nat}
    {target : String}
    (bound : order[index + 1]? = some target)
    {read : Reading}
    (listed : read ∈
      context.readings difference (order.take (index + 1)) target) :
    read.slot ≤ index ∧ ∃ lookup, lookups[read.relation]? = some lookup ∧
      lookup.Reads (index + 1)
        ⟨read.slot, read.direction, reading read.relation,
          context.relationType? read.relation⟩ := by
  obtain ⟨name, relation, taken, found, joins, _, direction⟩ :=
    (mem_readings of read).mp listed
  obtain ⟨below, near⟩ := getElem?_take_eq_some.mp taken
  obtain ⟨lookup, looked, renders, type⟩ := looks.getElem? found
  refine ⟨Nat.le_of_lt_succ below, lookup, looked, ?_⟩
  rw [direction]
  refine reads_of_reading of valid forOrder.different found renders type near ?_
  rcases joins with ⟨nearEnd, rfl⟩ | ⟨nearEnd, rfl⟩
  · exact .inl ⟨nearEnd, bound⟩
  · exact .inr ⟨nearEnd, bound⟩

/-- The rules of a stage read the relations that are placed there, each from a
variable bound before. -/
theorem reads_placedAt
    (of : context.Of pattern catalog)
    (valid : pattern.Valid)
    (forOrder : OrderFor pattern difference order)
    (reads : Reads pattern difference readAs reading)
    (looks : context.Looks pattern catalog reading order lookups)
    {index : Nat}
    {target : String}
    (bound : order[index + 1]? = some target) :
    List.Forall₂ (fun relation rule => rule.slot ≤ index ∧
        ∃ lookup, lookups[relation]? = some lookup ∧
          lookup.Reads (index + 1) rule)
      (context.placedAt difference (order.take (index + 1)) target)
      (context.rulesOf difference reading (order.take (index + 1)) target) := by
  refine List.rel_append ?_ ?_
  · cases given : difference with
    | none => exact .nil
    | some start =>
        have below := (List.getElem?_eq_some_iff.mp bound).1
        simp only [differenceRule, leading, List.length_take]
        split
        · have zero : index = 0 := by omega
          subst zero
          obtain ⟨_, _, _, _, relation, _, found, _, begins⟩ := forOrder.start
          obtain ⟨rfl, _⟩ := begins start given
          obtain ⟨lookup, looked, renders, type⟩ := looks.getElem? found
          have read :=
            (reads_of_difference forOrder reads given found renders type).2
          exact .cons ⟨Nat.le_refl 0, lookup, looked, read⟩ .nil
        · exact .nil
  · rw [List.forall₂_map_left_iff, List.forall₂_map_right_iff,
      List.forall₂_same]
    exact fun read listed =>
      reads_of_mem_readings of valid forOrder looks bound listed

/-- Every relation is placed at the stage of the later of its ends. -/
theorem relation_placed
    (of : context.Of pattern catalog)
    (valid : pattern.Valid)
    (forOrder : OrderFor pattern difference order)
    (reads : Reads pattern difference readAs reading)
    (looks : context.Looks pattern catalog reading order lookups)
    {relation : Nat}
    {lookup : EdgeLookup}
    (looked : lookups[relation]? = some lookup) :
    ∃ index target, order[index + 1]? = some target ∧
      relation ∈
        context.placedAt difference (order.take (index + 1)) target := by
  obtain ⟨declared, found, renders, type⟩ := looks.of_lookup looked
  have ends := valid.ends (List.mem_of_getElem? found)
  by_cases differs : ∃ start, difference = some start ∧
      start.relation = relation
  · obtain ⟨start, given, rfl⟩ := differs
    obtain ⟨second, _⟩ :=
      reads_of_difference forOrder reads given found renders type
    refine ⟨0, declared.target, second, List.mem_append_left _ ?_⟩
    have one : (order.take (0 + 1)).length = 1 := by
      have below := (List.getElem?_eq_some_iff.mp second).1
      rw [List.length_take]
      omega
    simp only [leading, given, if_pos one]
    exact List.mem_singleton.mpr rfl
  · have other : ∀ start, difference = some start → start.relation ≠ relation :=
      fun start given same => differs ⟨start, given, same⟩
    have apart : lookup.source ≠ lookup.target := by
      intro same
      have source := renders.source
      rw [same, renders.target] at source
      exact ends (Option.some.inj source).symm
    -- The rule stands at the stage that binds the later end.
    have placed {near far : Nat} (before : near < far) {name target : String}
        (nearName : order[near]? = some name)
        (farName : order[far]? = some target)
        (joins : declared.source = name ∧ declared.target = target ∨
          declared.target = name ∧ declared.source = target) :
        ∃ index target, order[index + 1]? = some target ∧
          relation ∈
            context.placedAt difference (order.take (index + 1)) target := by
      have last : far - 1 + 1 = far := by omega
      have inside : near < far - 1 + 1 := by omega
      refine ⟨far - 1, target, last ▸ farName, List.mem_append_right _ ?_⟩
      exact List.mem_map_of_mem (f := Reading.relation) ((mem_readings of
        ⟨near, context.directionFrom name relation, relation⟩).mpr
        ⟨name, declared, getElem?_take_eq_some.mpr ⟨inside, nearName⟩, found,
          joins, other, rfl⟩)
    rcases Nat.lt_or_gt_of_ne apart with before | after
    · exact placed before renders.source renders.target (.inl ⟨rfl, rfl⟩)
    · exact placed after renders.target renders.source (.inr ⟨rfl, rfl⟩)

/-- Every rule of a stage reads a relation from a variable bound before. -/
theorem rule_reads
    (of : context.Of pattern catalog)
    (valid : pattern.Valid)
    (forOrder : OrderFor pattern difference order)
    (reads : Reads pattern difference readAs reading)
    (looks : context.Looks pattern catalog reading order lookups)
    {index : Nat}
    {target : String}
    (bound : order[index + 1]? = some target)
    {rule : Rule}
    (member : rule ∈
      context.rulesOf difference reading (order.take (index + 1)) target) :
    rule.slot ≤ index ∧ ∃ lookup ∈ lookups, lookup.Reads (index + 1) rule := by
  obtain ⟨relation, _, before, lookup, looked, reading⟩ :=
    exists_left_of_forall₂ (reads_placedAt of valid forOrder reads looks bound)
      member
  exact ⟨before, lookup, List.mem_of_getElem? looked, reading⟩

/-- Every relation is read by the rule of some stage. -/
theorem relation_read
    (of : context.Of pattern catalog)
    (valid : pattern.Valid)
    (forOrder : OrderFor pattern difference order)
    (reads : Reads pattern difference readAs reading)
    (looks : context.Looks pattern catalog reading order lookups)
    {lookup : EdgeLookup}
    (member : lookup ∈ lookups) :
    ∃ index target rule, order[index + 1]? = some target ∧
      rule ∈
        context.rulesOf difference reading (order.take (index + 1)) target ∧
      lookup.Reads (index + 1) rule := by
  obtain ⟨relation, looked⟩ := List.getElem?_of_mem member
  obtain ⟨index, target, bound, placed⟩ :=
    relation_placed of valid forOrder reads looks looked
  obtain ⟨rule, listed, _, found, foundLooked, reading⟩ :=
    exists_right_of_forall₂ (reads_placedAt of valid forOrder reads looks bound)
      placed
  rw [looked] at foundLooked
  cases foundLooked
  exact ⟨index, target, rule, bound, listed, reading⟩

/-- The first stage reads the relation that joins the first two variables. -/
theorem first_stage (of : context.Of pattern catalog) (valid : pattern.Valid)
    (forOrder : OrderFor pattern difference order)
    (reads : Reads pattern difference readAs reading)
    (looks : context.Looks pattern catalog reading order lookups) :
    ∃ target rule, order[1]? = some target ∧
      rule ∈ context.rulesOf difference reading (order.take 1) target := by
  obtain ⟨first, second, rest, index, relation, split, found, joins, _⟩ :=
    forOrder.start
  obtain ⟨lookup, looked, renders, _⟩ := looks.getElem? found
  obtain ⟨stage, target, rule, bound, listed, reading⟩ :=
    relation_read of valid forOrder reads looks (List.mem_of_getElem? looked)
  have firstSlot : order[0]? = some first := by rw [split]; rfl
  have secondSlot : order[1]? = some second := by rw [split]; rfl
  have ends : lookup.source ≤ 1 ∧ lookup.target ≤ 1 := by
    have different := forOrder.different
    rcases joins with ⟨rfl, rfl⟩ | ⟨rfl, rfl⟩
    · rw [slot_unique different renders.source firstSlot,
        slot_unique different renders.target secondSlot]
      omega
    · rw [slot_unique different renders.source secondSlot,
        slot_unique different renders.target firstSlot]
      omega
  have zero : stage = 0 := by
    rcases reading.slot_eq with same | same <;> omega
  subst zero
  exact ⟨target, rule, bound, listed⟩

/-! ## The parts of a plan -/

/-- A variable of the order has a slot. -/
theorem position_eq {name : String} (member : name ∈ order) :
    ∃ slot, position order name = .ok slot ∧ order[slot]? = some name := by
  obtain ⟨slot, found⟩ := exists_idxOf? member
  exact ⟨slot, by rw [position, found], getElem?_of_idxOf? found⟩

/-- The lookups of a valid pattern can be laid out, one for each relation. -/
theorem lookups_eq (of : context.Of pattern catalog) (valid : pattern.Valid)
    (complete : ∀ name, name ∈ order ↔ name ∈ pattern.variableNames)
    (reads : Reads pattern difference readAs reading) :
    ∃ lookups, context.lookups order difference readAs = .ok lookups ∧
      context.Looks pattern catalog reading order lookups := by
  have names : pattern.relations.length = pattern.relationNames.length :=
    (Relation.length_names 0 pattern.relations).symm
  obtain ⟨lookups, all, related⟩ := mapM_total
    (pattern.relations.zip pattern.relationNames).zipIdx
    (fun entry => do
      let source ← position order entry.1.1.source
      let target ← position order entry.1.1.target
      let version ← resolvedVersion difference readAs entry.2
      return {
        name := entry.1.2, source, target
        type := context.relationType? entry.2, version : EdgeLookup })
    (fun entry lookup =>
      lookup.Renders order catalog reading entry.1.1 entry.2 ∧
        lookup.type = context.relationType? entry.2)
    fun entry member => by
      obtain ⟨⟨relation, name⟩, index⟩ := entry
      have found : pattern.relations[index]? = some relation :=
        (List.getElem?_zip_eq_some.mp
          (List.mem_zipIdx_iff_getElem?.mp member)).1
      have used := List.mem_of_getElem? found
      obtain ⟨source, sourceFound, sourceSlot⟩ :=
        position_eq ((complete _).mpr (valid.source used))
      obtain ⟨target, targetFound, targetSlot⟩ :=
        position_eq ((complete _).mpr (valid.target used))
      refine ⟨⟨name, source, target, context.relationType? index,
          reading index⟩, ?_,
        ⟨sourceSlot, targetSlot, of.numbers found, rfl⟩, rfl⟩
      simp only [sourceFound, targetFound, reads.resolved found]
      rfl
  refine ⟨lookups,
    by rw [PlanContext.lookups, of.about, of.relationNames]; exact all, ?_⟩
  have relations : pattern.relations.zipIdx =
      (pattern.relations.zip pattern.relationNames).zipIdx.map
        (Prod.map Prod.fst id) := by
    rw [← List.zipIdx_map, List.map_fst_zip (by omega)]
  rw [Looks, relations, List.forall₂_map_left_iff]
  exact related

theorem placeOf_eq
    (of : context.Of pattern catalog)
    (complete : ∀ name, name ∈ order ↔ name ∈ pattern.variableNames)
    {name : String}
    (known : name ∈ pattern.variableNames ∨ name ∈ pattern.relationNames) :
    ∃ place, context.placeOf order name = .ok place ∧
      place.StandsFor pattern order name := by
  rw [placeOf, of.relationNames]
  cases found : order.idxOf? name with
  | some slot => exact ⟨.vertex slot, rfl, getElem?_of_idxOf? found⟩
  | none =>
      have missing : name ∉ pattern.variableNames :=
        mt (complete name).mpr (List.idxOf?_eq_none_iff.mp found)
      obtain ⟨index, place⟩ := exists_idxOf? (known.resolve_left missing)
      exact ⟨.edge index, by rw [place], missing, place⟩

/-- A predicate over known names compiles to a condition that stands for it. -/
theorem run_condition
    (of : context.Of pattern catalog)
    (complete : ∀ name, name ∈ order ↔ name ∈ pattern.variableNames)
    {predicate : Predicate}
    (known : ∀ reference ∈ predicate.references,
      reference.element ∈ pattern.variableNames ∨
        reference.element ∈ pattern.relationNames)
    (before : Catalog) :
    ∃ condition later,
      context.condition order predicate before = (.ok condition, later) ∧
      before.Extends later ∧
      condition.Renders pattern order later predicate := by
  have left : predicate.left ∈ predicate.references := by
    unfold Predicate.references
    split <;> exact .head _
  obtain ⟨place, placed, stands⟩ := placeOf_eq of complete (known _ left)
  have finish (right : ConditionOperand) (middle : Catalog) :
      ((do
        let place ← context.placeOf order predicate.left.element
        let property ← Catalog.internProperty predicate.left.key
        return { place, property, comparison := predicate.comparison, right }
          : Planning Condition) middle) =
        (.ok ⟨place, (Catalog.internProperty predicate.left.key middle).1,
            predicate.comparison,
          right⟩, (Catalog.internProperty predicate.left.key middle).2) := by
    simp only [placed]
    rfl
  rw [condition]
  cases operand : predicate.right with
  | literal value =>
      obtain ⟨grows, numbers⟩ :=
        Catalog.internProperty_spec predicate.left.key before
      refine ⟨_, _, finish (.literal value) before, grows, stands, numbers, rfl,
        ?_⟩
      rw [operand]
      rfl
  | property reference =>
      have mentioned : reference ∈ predicate.references := by
        rw [Predicate.references, operand]
        exact .tail _ (.head _)
      obtain ⟨other, otherPlaced, otherStands⟩ :=
        placeOf_eq of complete (known _ mentioned)
      obtain ⟨grows, numbers⟩ :=
        Catalog.internProperty_spec reference.key before
      obtain ⟨growsMore, leftNumbers⟩ :=
        Catalog.internProperty_spec predicate.left.key
        (Catalog.internProperty reference.key before).2
      refine ⟨⟨place, _, predicate.comparison,
        .property other (Catalog.internProperty reference.key before).1⟩, _, ?_,
        grows.trans growsMore, stands, leftNumbers, rfl, ?_⟩
      · simp only [otherPlaced]
        exact finish
          (.property other (Catalog.internProperty reference.key before).1) _
      · rw [operand]
        exact ⟨otherStands, numbers.mono growsMore⟩

/-- The plan that looks up the relations as given, with the stages that read
them. -/
def planOf
    (context : PlanContext)
    (difference : Option Difference)
    (reading : Nat → Version)
    (order : List String)
    (types : List (Option TypeId))
    (lookups : List EdgeLookup)
    (conditions : List Condition)
    (columns : List Nat) : Plan :=
  { order, types, lookups, conditions, columns
    stages :=
      context.stagesOf difference reading (order.take 1) (order.drop 1) }

/-- A plan laid out for a valid pattern is well formed. -/
theorem wellFormed_planOf
    (of : context.Of pattern catalog)
    (valid : pattern.Valid)
    (forOrder : OrderFor pattern difference order)
    (reads : Reads pattern difference readAs reading)
    (looks : context.Looks pattern catalog reading order lookups)
    {types : List (Option TypeId)}
    (typed : order.length = types.length)
    {columns : List Nat}
    (shown :
      List.Forall₂ (fun name column => order[column]? = some name)
        pattern.variableNames columns)
    (conditions : List Condition) :
    (context.planOf difference reading order types lookups conditions
      columns).WellFormed := by
  have stage (index : Nat) :
      (context.planOf difference reading order types lookups conditions
        columns).stages[index]? =
        (order[index + 1]?).map fun target =>
          context.rulesOf difference reading (order.take (index + 1)) target :=
    getElem?_stagesOf_order context difference reading order index
  constructor
  case stages =>
    obtain ⟨first, second, rest, _, _, split, _⟩ := forOrder.start
    simp only [planOf, length_stagesOf, split]
    simp
  case types => exact typed.symm
  case start =>
    obtain ⟨target, rule, bound, listed⟩ :=
      first_stage of valid forOrder reads looks
    have head := stage 0
    rw [bound, Option.map_some] at head
    generalize (context.planOf difference reading order types lookups conditions
      columns).stages
      = stages at head ⊢
    cases stages with
    | nil => cases head
    | cons firstStage later =>
        cases firstStage with
        | nil =>
            have empty := Option.some.inj head
            rw [← empty] at listed
            cases listed
        | cons rule others => exact ⟨rule, others, later, rfl⟩
  case columns =>
    intro column member
    obtain ⟨name, _, slot⟩ := exists_left_of_forall₂ shown member
    exact (List.getElem?_eq_some_iff.mp slot).1
  case shown =>
    intro slot below
    have declared := (forOrder.complete _).mp (List.getElem_mem below)
    obtain ⟨column, member, same⟩ := exists_right_of_forall₂ shown declared
    rwa [slot_unique forOrder.different (List.getElem?_eq_getElem below) same]
  case rules =>
    intro index found rule present member
    rw [stage, Option.map_eq_some_iff] at present
    obtain ⟨target, bound, rfl⟩ := present
    exact rule_reads of valid forOrder reads looks bound member
  case lookups =>
    intro lookup member
    obtain ⟨index, target, rule, bound, listed, reading⟩ :=
      relation_read of valid forOrder reads looks member
    exact ⟨index, _, rule, by rw [stage, bound]; rfl, listed, reading⟩

/-- A plan that binds the variables in a given order. -/
structure Lays
    (context : PlanContext)
    (pattern : Pattern)
    (catalog : Catalog)
    (difference : Option Difference)
    (reading : Nat → Version)
    (order : List String)
    (plan : Plan) : Prop where
  stages :
    plan.stages =
      context.stagesOf difference reading (order.take 1) (order.drop 1)
  looks : context.Looks pattern catalog reading order plan.lookups
  order : plan.order = order

/-- The plan that binds the variables of a valid pattern in a given order
implements the pattern, and starts from the difference if there is one. -/
theorem run_plan (of : context.Of pattern catalog) (valid : pattern.Valid)
    (forOrder : OrderFor pattern difference order)
    (reads : Reads pattern difference readAs reading) :
    ∃ plan later,
      context.plan order difference readAs catalog = (.ok plan, later) ∧
      catalog.Extends later ∧ plan.Implements pattern later reading ∧
      (∀ start, difference = some start → plan.startVersion = start.version) ∧
      context.Lays pattern later difference reading order plan := by
  have complete := forOrder.complete
  obtain ⟨lookups, lookupsEq, looks⟩ := lookups_eq of valid complete reads
  obtain ⟨columns, columnsEq, shown⟩ := mapM_total pattern.variableNames
    (fun name => position order name)
    (fun name column => order[column]? = some name)
    fun name declared => position_eq ((complete name).mpr declared)
  obtain ⟨conditions, middle, runConditions, grows, rendered⟩ :=
    Catalog.run_mapM
    pattern.predicates (context.condition order)
    (fun catalog predicate condition =>
      condition.Renders pattern order catalog predicate)
    (fun grows renders => renders.mono grows)
    (fun predicate member =>
      run_condition of complete fun reference mentioned =>
        valid.element member mentioned)
    catalog
  obtain ⟨types, later, runTypes, growsMore, typed⟩ := Catalog.run_mapM
    order (fun name => liftM (Catalog.internType? (pattern.typeOf? name)))
    (fun catalog name type => catalog.Numbers (pattern.typeOf? name) type)
    (fun grows numbers => numbers.mono grows)
    (fun name _ catalog => by
      obtain ⟨grows, numbers⟩ :=
        Catalog.internType?_spec (pattern.typeOf? name) catalog
      exact ⟨_, _, rfl, grows, numbers⟩)
    middle
  refine ⟨context.planOf difference reading order types lookups conditions
    columns, later, ?_, grows.trans growsMore,
    ⟨?_, forOrder.different, complete, typed, ?_, shown, ?_⟩, ?_, rfl, ?_, rfl⟩
  · rw [PlanContext.plan, stages_eq of reads, lookupsEq, of.about]
    have columnsRun : (pattern.variableNames.mapM fun name =>
        (liftM (position order name) : Planning Nat)) catalog =
        (.ok columns, catalog) := by
      rw [run_mapM_except, columnsEq]
    refine (run_bind_ok columnsRun).trans ?_
    refine (run_bind_ok runConditions).trans ?_
    exact (run_bind_ok runTypes).trans rfl
  · exact wellFormed_planOf of valid forOrder reads looks typed.length_eq shown
      conditions
  · exact looks.imp fun _ _ both => both.1.mono (grows.trans growsMore)
  · exact rendered.imp fun _ _ renders => renders.mono growsMore
  · rintro start rfl
    obtain ⟨first, second, rest, _, _, split, _⟩ := forOrder.start
    simp [Plan.startVersion, planOf, split, stagesOf, rulesOf, differenceRule]
  · exact looks.imp fun _ _ both =>
      ⟨both.1.mono (grows.trans growsMore), both.2⟩

end PlanContext

end DeltaGraph
