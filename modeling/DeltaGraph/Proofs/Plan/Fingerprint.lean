import DeltaGraph.Proofs.Pattern.Names
import DeltaGraph.Proofs.Plan.Encoding
import DeltaGraph.Proofs.Plan.OfPattern
import DeltaGraph.Proofs.Plan.Placement

/-!
# What the bytes of a plan tell

The bytes that are hashed show the variables, types, stages and columns of a
plan of a built pattern and the number of its conditions, and with names without
zero bytes its relations as well.  The types of relations are not written, but
the rules that read them show them.
-/

namespace DeltaGraph

namespace Plan

/-! ## Types of relations -/

section

variable {plan other : Plan}

/-- Up to types both plans have the same relations. -/
def SameEnds (plan other : Plan) : Prop :=
  plan.lookups.map EdgeLookup.untyped = other.lookups.map EdgeLookup.untyped

theorem SameEnds.symm (ends : plan.SameEnds other) :
    other.SameEnds plan := Eq.symm ends

/-- Plans with the same ends have, for each relation, lookups that differ in
type only. -/
theorem SameEnds.exists_other
    (ends : plan.SameEnds other)
    {relation : Nat}
    {lookup : EdgeLookup}
    (looked : plan.lookups[relation]? = some lookup) :
    ∃ found, other.lookups[relation]? = some found ∧
      found.untyped = lookup.untyped := by
  have listed :
      (other.lookups.map EdgeLookup.untyped)[relation]? =
        some lookup.untyped := by
    rw [← ends, List.getElem?_map, looked, Option.map_some]
  rwa [List.getElem?_map, Option.map_eq_some_iff] at listed

theorem slot_rule_eq
    {lookup found : EdgeLookup}
    (same : found.untyped = lookup.untyped) :
    found.rule.slot = lookup.rule.slot := by
  obtain ⟨_, source, target, _⟩ := EdgeLookup.untyped_eq_iff.mp same
  rw [EdgeLookup.rule, EdgeLookup.rule, source, target]

/-- Which relation is read before which one depends on the ends of the lookups
alone. -/
theorem ReadsBefore.of_sameEnds (ends : plan.SameEnds other) {left right : Nat}
    (before : other.ReadsBefore left right) : plan.ReadsBefore left right := by
  intro lookup later looked laterLooked
  obtain ⟨found, foundLooked, same⟩ := ends.exists_other looked
  obtain ⟨laterFound, laterFoundLooked, laterSame⟩ :=
    ends.exists_other laterLooked
  rw [← slot_rule_eq same, ← slot_rule_eq laterSame]
  exact before found laterFound foundLooked laterFoundLooked

variable {placed otherPlaced : List (List Nat)}

theorem Placement.nodup
    (placement : plan.Placement none placed)
    {relations : List Nat}
    (stage : relations ∈ placed) : relations.Nodup :=
  (List.nodup_flatten.mp (placement.once.nodup_iff.mpr List.nodup_range)).1
    relations stage

/-- A stage holds the relations whose later end it binds. -/
theorem Placement.mem_iff
    (placement : plan.Placement none placed)
    {index relation : Nat}
    {relations : List Nat}
    (stage : placed[index]? = some relations) :
    relation ∈ relations ↔ ∃ lookup, plan.lookups[relation]? = some lookup ∧
      max lookup.source lookup.target = index + 1 := by
  constructor
  · intro member
    have listed :=
      List.mem_flatten.mpr ⟨relations, List.mem_of_getElem? stage, member⟩
    have below := List.mem_range.mp (placement.once.mem_iff.mp listed)
    have looked := List.getElem?_eq_getElem below
    exact ⟨_, looked, placement.stage stage member looked⟩
  · rintro ⟨lookup, looked, later⟩
    have below := (List.getElem?_eq_some_iff.mp looked).1
    have listed := placement.once.mem_iff.mpr (List.mem_range.mpr below)
    obtain ⟨others, member, inside⟩ := List.mem_flatten.mp listed
    obtain ⟨place, found⟩ := List.getElem?_of_mem member
    have here := placement.stage found inside looked
    obtain rfl : place = index := by omega
    rw [stage] at found
    exact Option.some.inj found ▸ inside

/-- Plans with the same ends place a relation in the same stage. -/
theorem mem_placed_of_sameEnds
    (placement : plan.Placement none placed)
    (otherPlacement : other.Placement none otherPlaced)
    (ends : plan.SameEnds other)
    {index relation : Nat}
    {relations others : List Nat}
    (stage : placed[index]? = some relations)
    (otherStage : otherPlaced[index]? = some others)
    (member : relation ∈ relations) :
    relation ∈ others := by
  obtain ⟨lookup, looked, later⟩ := (placement.mem_iff stage).mp member
  obtain ⟨found, foundLooked, same⟩ := ends.exists_other looked
  obtain ⟨_, source, target, _⟩ := EdgeLookup.untyped_eq_iff.mp same
  exact (otherPlacement.mem_iff otherStage).mpr
    ⟨found, foundLooked, by rw [source, target, later]⟩

/-- Without a difference all rules of a stage are in order. -/
theorem Placement.pairwise
    (placement : plan.Placement none placed)
    {relations : List Nat}
    (stage : relations ∈ placed) :
    relations.Pairwise plan.ReadsBefore := by
  have ordered := placement.ordered stage
  rwa [List.filter_eq_self.mpr (by simp)] at ordered

/-- Plans whose relations have the same ends place them alike. -/
theorem Placement.unique
    (placement : plan.Placement none placed)
    (otherPlacement : other.Placement none otherPlaced)
    (ends : plan.SameEnds other)
    (length : placed.length = otherPlaced.length) :
    placed = otherPlaced := by
  refine List.ext_getElem length fun index inside otherInside => ?_
  have stage := List.getElem?_eq_getElem inside
  have otherStage := List.getElem?_eq_getElem otherInside
  have member := List.getElem_mem inside
  have otherMember := List.getElem_mem otherInside
  have perm : placed[index].Perm otherPlaced[index] := by
    refine (List.perm_ext_iff_of_nodup (placement.nodup member)
      (otherPlacement.nodup otherMember)).mpr fun relation => ⟨?_, ?_⟩
    · exact mem_placed_of_sameEnds placement otherPlacement ends stage
        otherStage
    · exact mem_placed_of_sameEnds otherPlacement placement ends.symm otherStage
        stage
  have otherOrdered : otherPlaced[index].Pairwise plan.ReadsBefore :=
    (otherPlacement.pairwise otherMember).imp fun before =>
      before.of_sameEnds ends
  refine perm.eq_of_pairwise ?_ (placement.pairwise member) otherOrdered
  -- two relations are not each before the other one
  intro left right inLeft inRight before after
  obtain ⟨lookup, looked, _⟩ := (placement.mem_iff stage).mp inLeft
  obtain ⟨later, laterLooked, _⟩ :=
    (placement.mem_iff stage).mp (perm.mem_iff.mpr inRight)
  have first := before lookup later looked laterLooked
  have second := after later lookup laterLooked looked
  omega

/-- A relation is read by a rule of its type. -/
theorem Placement.type_eq
    (placement : plan.Placement none placed)
    (otherPlacement : other.Placement none placed)
    (stages : plan.stages = other.stages)
    {relation : Nat}
    {lookup found : EdgeLookup}
    (looked : plan.lookups[relation]? = some lookup)
    (foundLooked : other.lookups[relation]? = some found) :
    lookup.type = found.type := by
  have below := (List.getElem?_eq_some_iff.mp looked).1
  obtain ⟨relations, member, inside⟩ :=
    List.mem_flatten.mp (placement.once.mem_iff.mpr (List.mem_range.mpr below))
  obtain ⟨index, stage⟩ := List.getElem?_of_mem member
  obtain ⟨place, here⟩ := List.getElem?_of_mem inside
  obtain ⟨rules, ruled, reads⟩ :=
    exists_getElem?_of_forall₂ placement.rules stage
  obtain ⟨otherRules, otherRuled, otherReads⟩ :=
    exists_getElem?_of_forall₂ otherPlacement.rules stage
  rw [← stages, ruled] at otherRuled
  cases otherRuled
  obtain ⟨rule, listed, _, sameLooked, read⟩ :=
    exists_getElem?_of_forall₂ reads here
  obtain ⟨again, listedAgain, _, sameFound, readAgain⟩ :=
    exists_getElem?_of_forall₂ otherReads here
  rw [looked] at sameLooked
  rw [foundLooked] at sameFound
  rw [listed] at listedAgain
  cases sameLooked
  cases sameFound
  cases listedAgain
  exact congrArg Rule.type (read.symm.trans readAgain)

/-- The rules of a plan tell the types of its relations. -/
theorem lookups_eq_of_sameEnds
    (placement : plan.Placement none placed)
    (otherPlacement : other.Placement none otherPlaced)
    (ends : plan.SameEnds other)
    (stages : plan.stages = other.stages) :
    plan.lookups = other.lookups := by
  have length : placed.length = otherPlaced.length := by
    rw [placement.rules.length_eq, otherPlacement.rules.length_eq, stages]
  obtain rfl := placement.unique otherPlacement ends length
  refine List.ext_getElem? fun relation => ?_
  cases looked : plan.lookups[relation]? with
  | none =>
      cases foundLooked : other.lookups[relation]? with
      | none => rfl
      | some found =>
          obtain ⟨lookup, present, _⟩ := ends.symm.exists_other foundLooked
          rw [looked] at present
          cases present
  | some lookup =>
      obtain ⟨found, foundLooked, same⟩ := ends.exists_other looked
      have types := placement.type_eq otherPlacement stages looked foundLooked
      rw [foundLooked, EdgeLookup.eq_of_untyped same types.symm]

end

/-! ## Plans of built patterns -/

/-- The numbers in a plan have the widths in which they are written. -/
structure Fits (plan : Plan) : Prop where
  order : plan.order.length < 2 ^ 64
  lookups : plan.lookups.length < 2 ^ 64
  conditions : plan.conditions.length < 2 ^ 64
  types : ∀ type ∈ plan.types, FitsType type
  lookupTypes : ∀ lookup ∈ plan.lookups, FitsType lookup.type

/-- A plan for all rows of a pattern whose variables differ. -/
structure OfBuilt (plan : Plan) : Prop where
  wellFormed : plan.WellFormed
  placement : ∃ placed, plan.Placement none placed
  columns : plan.columns.length = plan.order.length
  committed : ∀ lookup ∈ plan.lookups, lookup.version = .permanent
  ends : ∀ lookup ∈ plan.lookups,
    lookup.source < plan.order.length ∧ lookup.target < plan.order.length

/-- A plan of an assembled pattern is one of those whose bytes are told
apart. -/
theorem ofBuilt_of_ofPattern
    {declarations : List Declaration}
    {pattern : Pattern}
    (built : Pattern.ofDeclarations declarations = .ok pattern)
    {catalog : Catalog}
    {plan : Plan}
    (planned : (Plan.ofPattern pattern catalog).1 = .ok plan) :
    plan.OfBuilt := by
  obtain ⟨different, valid⟩ := Pattern.of_ofDeclarations built
  have faultless := Pattern.fault?_of_validate valid
  obtain ⟨_, _, run, _, implements, _⟩ := Plan.run_ofPattern faultless catalog
  rw [run] at planned
  cases planned
  constructor
  case wellFormed => exact implements.wellFormed
  case placement => exact Plan.placement_of_ofPattern faultless run
  case columns =>
    have perm :=
      (List.perm_ext_iff_of_nodup implements.different different).mpr
        implements.mem_order
    exact implements.columns.length_eq.symm.trans perm.length_eq.symm
  case committed =>
    intro lookup member
    obtain ⟨_, _, renders⟩ := exists_left_of_forall₂ implements.lookups member
    exact renders.version
  case ends =>
    intro lookup member
    obtain ⟨_, _, renders⟩ := exists_left_of_forall₂ implements.lookups member
    exact ⟨(List.getElem?_eq_some_iff.mp renders.source).1,
      (List.getElem?_eq_some_iff.mp renders.target).1⟩

namespace OfBuilt

variable {plan : Plan} (of : plan.OfBuilt)

include of

/-- What follows the names of the variables starts with the marker of a type. -/
theorem startsWithMarker (rest : List UInt8) :
    StartsWithMarker (plan.types.flatMap typeBytes ++ rest) := by
  have length := of.wellFormed.types
  rw [← of.wellFormed.stages] at length
  obtain ⟨type, types, typed⟩ := List.exists_cons_of_length_eq_add_one length
  rw [typed, List.flatMap_cons]
  cases type with
  | none => exact ⟨0, _, rfl, by decide⟩
  | some id => exact ⟨1, _, rfl, by decide⟩

/-- There is a rule for each relation. -/
theorem length_flatten_stages :
    plan.stages.flatten.length = plan.lookups.length := by
  obtain ⟨placed, placement⟩ := of.placement
  have lengths : plan.stages.map List.length = placed.map List.length :=
    map_eq_map_of_forall₂ placement.rules fun _ _ rules => rules.length_eq.symm
  rw [List.length_flatten, lengths, ←
    List.length_flatten, placement.once.length_eq, List.length_range]

theorem fits_stages (fits : plan.Fits) :
    ∀ stage ∈ plan.stages, Stage.Fits stage := by
  intro stage member
  constructor
  case length =>
    have part := (List.sublist_flatten_of_mem member).length_le
    rw [of.length_flatten_stages] at part
    exact Nat.lt_of_le_of_lt part fits.lookups
  case rules =>
    intro rule listed
    obtain ⟨index, found⟩ := List.getElem?_of_mem member
    obtain ⟨before, lookup, looked, reads⟩ := of.wellFormed.rules found listed
    have below := (List.getElem?_eq_some_iff.mp found).1
    have bound := fits.order
    rw [← of.wellFormed.stages] at bound
    obtain ⟨same, _⟩ := reads.eq_rule (Nat.lt_succ_of_le before)
    exact ⟨by omega, same ▸ fits.lookupTypes lookup looked⟩

theorem fits_lookups (fits : plan.Fits)
    (clean : ∀ lookup ∈ plan.lookups, HasNoZero lookup.name) :
    ∀ lookup ∈ plan.lookups, lookup.Fits := by
  intro lookup member
  obtain ⟨source, target⟩ := of.ends lookup member
  exact ⟨source.trans fits.order, target.trans fits.order,
    of.committed lookup member, clean lookup member⟩

end OfBuilt

/-! ## Reading plans back -/

/-- The two plans agree in all parts that the bytes show whatever the names of
relations. -/
structure SameShape (plan other : Plan) : Prop where
  order : plan.order = other.order
  types : plan.types = other.types
  stages : plan.stages = other.stages
  columns : plan.columns = other.columns
  conditions : plan.conditions.length = other.conditions.length

/-- The bytes of a plan, grouped into its sections. -/
theorem bytes_eq (plan : Plan) :
    plan.bytes =
      plan.order.flatMap nameBytes ++ (plan.types.flatMap typeBytes ++
        (plan.stages.flatMap Stage.bytes ++
          ((plan.lookups.flatMap EdgeLookup.bytes ++
            wordBytes plan.conditions.length) ++
            plan.columns.flatMap wordBytes))) := by
  have names : (fun name => textBytes name ++ [0]) = nameBytes := rfl
  simp only [bytes, names, List.append_assoc]

theorem length_columnBytes (columns : List Nat) :
    (columns.flatMap wordBytes).length = 8 * columns.length := by
  induction columns with
  | nil => rfl
  | cons column columns inductionHypothesis =>
      rw [List.flatMap_cons, List.length_append, length_wordBytes,
        inductionHypothesis, List.length_cons]
      omega

variable {plan other : Plan}

/-- The bytes of a plan tell its shape, and what is written for its
relations. -/
theorem sameShape_of_bytes
    (of : plan.OfBuilt)
    (otherOf : other.OfBuilt)
    (fits : plan.Fits)
    (otherFits : other.Fits)
    (clean : ∀ name ∈ plan.order, HasNoZero name)
    (otherClean : ∀ name ∈ other.order, HasNoZero name)
    (counted : plan.order.length = other.order.length ∨
      (∀ name ∈ plan.order, StartsVisibly name) ∧
        ∀ name ∈ other.order, StartsVisibly name)
    (same : plan.bytes = other.bytes) :
    plan.SameShape other ∧
      plan.lookups.flatMap EdgeLookup.bytes =
        other.lookups.flatMap EdgeLookup.bytes := by
  rw [bytes_eq, bytes_eq] at same
  obtain ⟨order, sameTypes⟩ :=
    names_inj clean otherClean counted (of.startsWithMarker _)
    (otherOf.startsWithMarker _) same
  have typesLength : plan.types.length = other.types.length := by
    rw [of.wellFormed.types, otherOf.wellFormed.types, order]
  obtain ⟨types, sameStages⟩ :=
    delimits_typeBytes.flatMap (.inl typesLength) fits.types otherFits.types
      sameTypes
  have stagesLength : plan.stages.length = other.stages.length := by
    have stages := of.wellFormed.stages
    have otherStages := otherOf.wellFormed.stages
    rw [order] at stages
    omega
  obtain ⟨stages, sameTail⟩ := delimits_stageBytes.flatMap (.inl stagesLength)
    (of.fits_stages fits) (otherOf.fits_stages otherFits) sameStages
  -- what is left ends with one word for each variable, and before them the
  -- number of conditions
  have columnsLength : plan.columns.length = other.columns.length := by
    rw [of.columns, otherOf.columns, order]
  obtain ⟨sameFront, sameColumns⟩ := List.append_inj' sameTail (by
    rw [length_columnBytes, length_columnBytes, columnsLength])
  obtain ⟨lookups, count⟩ := List.append_inj' sameFront (by simp)
  have columnFits : ∀ column ∈ plan.columns, column < 2 ^ 64 :=
    fun column member =>
      (of.wellFormed.columns column member).trans fits.order
  have otherColumnFits : ∀ column ∈ other.columns, column < 2 ^ 64 :=
    fun column member =>
      (otherOf.wellFormed.columns column member).trans otherFits.order
  have sameEnd :
      plan.columns.flatMap wordBytes ++ [] =
        other.columns.flatMap wordBytes ++ [] := by
    rw [sameColumns]
  obtain ⟨columns, _⟩ :=
    delimits_wordBytes.flatMap (.inl columnsLength) columnFits otherColumnFits
      sameEnd
  exact ⟨⟨order, types, stages, columns,
      wordBytes_inj fits.conditions otherFits.conditions count⟩,
    lookups⟩

/-- With names without zeros the bytes tell the relations as well. -/
theorem lookups_eq_of_bytes
    (of : plan.OfBuilt)
    (otherOf : other.OfBuilt)
    (fits : plan.Fits)
    (otherFits : other.Fits)
    (clean : ∀ lookup ∈ plan.lookups, HasNoZero lookup.name)
    (otherClean : ∀ lookup ∈ other.lookups, HasNoZero lookup.name)
    (shape : plan.SameShape other)
    (same : plan.lookups.flatMap EdgeLookup.bytes =
      other.lookups.flatMap EdgeLookup.bytes) :
    plan.lookups = other.lookups := by
  have length : plan.lookups.length = other.lookups.length := by
    rw [← of.length_flatten_stages, ←
      otherOf.length_flatten_stages, shape.stages]
  have ends : plan.SameEnds other := EdgeLookup.map_untyped_inj length
    (of.fits_lookups fits clean) (otherOf.fits_lookups otherFits otherClean)
    same
  obtain ⟨_, placement⟩ := of.placement
  obtain ⟨_, otherPlacement⟩ := otherOf.placement
  exact lookups_eq_of_sameEnds placement otherPlacement ends shape.stages

end Plan

/-- If the plans of two built patterns are hashed from the same bytes, the
variables and their types, the stages, the columns and the number of conditions
are the same, and the relations as well if their names have no zeros.  The names
of variables have no zeros either, and they do not start like the marker of a
type unless both patterns have equally many. -/
theorem Pattern.encodes_shape
    {declarations otherDeclarations : List Declaration}
    {pattern other : Pattern}
    (built : ofDeclarations declarations = .ok pattern)
    (otherBuilt : ofDeclarations otherDeclarations = .ok other)
    {catalog otherCatalog : Catalog}
    {plan otherPlan : Plan}
    (planned : (Plan.ofPattern pattern catalog).1 = .ok plan)
    (otherPlanned : (Plan.ofPattern other otherCatalog).1 = .ok otherPlan)
    (fits : plan.Fits)
    (otherFits : otherPlan.Fits)
    (clean : ∀ name ∈ plan.order, HasNoZero name)
    (otherClean : ∀ name ∈ otherPlan.order, HasNoZero name)
    (counted : plan.order.length = otherPlan.order.length ∨
      (∀ name ∈ plan.order, StartsVisibly name) ∧
        ∀ name ∈ otherPlan.order, StartsVisibly name)
    (same : plan.bytes = otherPlan.bytes) :
    plan.SameShape otherPlan ∧
      ((∀ lookup ∈ plan.lookups, HasNoZero lookup.name) →
        (∀ lookup ∈ otherPlan.lookups, HasNoZero lookup.name) →
        plan.lookups = otherPlan.lookups) := by
  have of := Plan.ofBuilt_of_ofPattern built planned
  have otherOf := Plan.ofBuilt_of_ofPattern otherBuilt otherPlanned
  obtain ⟨shape, lookups⟩ :=
    Plan.sameShape_of_bytes of otherOf fits otherFits clean otherClean counted
      same
  exact ⟨shape, fun named otherNamed =>
    Plan.lookups_eq_of_bytes of otherOf fits otherFits named otherNamed shape
      lookups⟩

/-- Two patterns that differ in a literal. -/
theorem Pattern.encodes_shape_of_two_literals :
    let declarations (literal : Int64) : List Declaration :=
      [.relation ⟨"a", some "person"⟩ ⟨"b", none⟩ (some "knows") (some "r"),
        .predicate ⟨⟨"a", "age"⟩, .less, .literal (.int literal)⟩]
    let pattern (literal : Int64) : Pattern :=
      { declared := [⟨"a", some "person"⟩, ⟨"b", none⟩]
        relations := [⟨"a", "b", some "knows", some "r"⟩]
        predicates := [⟨⟨"a", "age"⟩, .less, .literal (.int literal)⟩] }
    let plan (literal : Int64) : Plan :=
      { order := ["a", "b"]
        types := [some ⟨2⟩, none]
        stages := [[⟨0, .forward, .permanent, some ⟨1⟩⟩]]
        lookups := [⟨"r", 0, 1, some ⟨1⟩, .permanent⟩]
        conditions := [⟨.vertex 0, ⟨0⟩, .less, .literal (.int literal)⟩]
        columns := [0, 1] }
    (ofDeclarations (declarations 1) = .ok (pattern 1) ∧
        ofDeclarations (declarations 2) = .ok (pattern 2)) ∧
      ((Plan.ofPattern (pattern 1) .empty).1 = .ok (plan 1) ∧
        (Plan.ofPattern (pattern 2) .empty).1 = .ok (plan 2)) ∧
      plan 1 ≠ plan 2 ∧ (plan 1).SameShape (plan 2) ∧
      (plan 1).lookups = (plan 2).lookups := by
  intro declarations pattern plan
  have built : ofDeclarations (declarations 1) = .ok (pattern 1) := by
    decide +kernel
  have otherBuilt : ofDeclarations (declarations 2) = .ok (pattern 2) := by
    decide +kernel
  have planned : (Plan.ofPattern (pattern 1) .empty).1 = .ok (plan 1) := by
    decide +kernel
  have otherPlanned : (Plan.ofPattern (pattern 2) .empty).1 = .ok (plan 2) := by
    decide +kernel
  have fits : (plan 1).Fits :=
    ⟨by decide, by decide, by decide, by decide, by decide⟩
  have otherFits : (plan 2).Fits :=
    ⟨by decide, by decide, by decide, by decide, by decide⟩
  obtain ⟨shape, lookups⟩ :=
    encodes_shape built otherBuilt planned otherPlanned fits otherFits
    (by decide) (by decide) (.inl rfl) (by decide +kernel)
  exact ⟨⟨built, otherBuilt⟩, ⟨planned, otherPlanned⟩, by decide, shape,
    lookups (by decide) (by decide)⟩

/-- Zeros like those of slots and versions as part of names: the bytes do not
tell where the name of a relation ends. -/
theorem Pattern.not_encodes_names_with_zeros :
    let slots :=
      "\x00\x00\x00\x00\x00\x00\x00\x00\x01\x00\x00\x00\x00\x00\x00\x00\x00"
    let declarations (first second : String) : List Declaration :=
      [.relation ⟨"u", none⟩ ⟨"v", none⟩ none (some first),
        .relation ⟨"u", none⟩ ⟨"v", none⟩ none (some second)]
    let pattern (first second : String) : Pattern :=
      { declared := [⟨"u", none⟩, ⟨"v", none⟩]
        relations :=
          [⟨"u", "v", none, some first⟩, ⟨"u", "v", none, some second⟩] }
    let plan (first second : String) : Plan :=
      { order := ["u", "v"]
        types := [none, none]
        stages :=
          [[⟨0, .forward, .permanent, none⟩, ⟨0, .forward, .permanent, none⟩]]
        lookups :=
          [⟨first, 0, 1, none, .permanent⟩, ⟨second, 0, 1, none, .permanent⟩]
        conditions := []
        columns := [0, 1] }
    let left := ("a", "b" ++ slots ++ "c")
    let right := ("a" ++ slots ++ "b", "c")
    (∀ names ∈ [left, right],
      ofDeclarations (declarations names.1 names.2) =
        .ok (pattern names.1 names.2) ∧
        (Plan.ofPattern (pattern names.1 names.2) .empty).1 =
          .ok (plan names.1 names.2)) ∧
      (plan left.1 left.2).bytes = (plan right.1 right.2).bytes ∧
      (plan left.1 left.2).lookups ≠ (plan right.1 right.2).lookups := by
  decide +kernel

end DeltaGraph
