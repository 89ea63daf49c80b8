import DeltaGraph.Plan.Explain
import DeltaGraph.Proofs.Catalog.Calls
import DeltaGraph.Proofs.Plan.OfPattern

/-!
# Planning again

Planning writes to the catalog, but what it adds are the names that it asks for.
So once a pattern has been planned, planning it again finds all names with the
numbers that they had, whatever was interned or looked up in between: the plan
is the same, and nothing is added.
-/

namespace DeltaGraph

namespace Dictionary

/-- Interning a known name changes nothing. -/
theorem intern_of_number?
    {dictionary : Dictionary}
    {name : String}
    {number : Nat}
    (found : dictionary.number? name = some number) :
    dictionary.intern name = (number, dictionary) := by
  rw [intern, found]

end Dictionary

namespace Catalog

/-- The later catalog has the dictionaries of the earlier one. -/
structure SameNames (catalog later : Catalog) : Prop where
  types : later.types = catalog.types
  properties : later.properties = catalog.properties

variable {catalog middle later : Catalog}

theorem SameNames.refl (catalog : Catalog) :
    catalog.SameNames catalog := ⟨rfl, rfl⟩

theorem SameNames.trans
    (first : catalog.SameNames middle)
    (second : middle.SameNames later) :
    catalog.SameNames later :=
  ⟨second.types.trans first.types, second.properties.trans first.properties⟩

theorem SameNames.symm (same : catalog.SameNames later) :
    later.SameNames catalog :=
  ⟨same.types.symm, same.properties.symm⟩

/-- A catalog with the same names extends the other one. -/
theorem SameNames.extends (same : catalog.SameNames later) :
    catalog.Extends later where
  types := same.types ▸ List.prefix_refl _
  properties := same.properties ▸ List.prefix_refl _

/-- The catalog knows the names that planning the pattern asks for. -/
structure KnowsNamesOf (catalog : Catalog) (pattern : Pattern) : Prop where
  relations {relation : Relation} (member : relation ∈ pattern.relations) :
    ∃ type, catalog.Numbers relation.type type
  declared (name : String) : ∃ type, catalog.Numbers (pattern.typeOf? name) type
  references {predicate : Predicate} (member : predicate ∈ pattern.predicates)
    {reference : PropertyReference}
    (mentioned : reference ∈ predicate.references) :
    ∃ property, catalog.NumbersKey reference.key property

/-- A catalog that knows the names of a pattern goes on knowing them. -/
theorem KnowsNamesOf.mono (grows : catalog.Extends later) {pattern : Pattern}
    (known : catalog.KnowsNamesOf pattern) : later.KnowsNamesOf pattern where
  relations member :=
    (known.relations member).imp fun _ numbers => numbers.mono grows
  declared name := (known.declared name).imp fun _ numbers => numbers.mono grows
  references member _ mentioned :=
    (known.references member mentioned).imp fun _ numbers => numbers.mono grows

/-- Interning a name that a catalog knows changes no dictionary. -/
theorem internType?_of_numbers {name : Option String} {type : Option TypeId}
    (numbers : catalog.Numbers name type) :
    (internType? name catalog).1 = type ∧
      catalog.SameNames (internType? name catalog).2 := by
  cases numbers with
  | none => exact ⟨rfl, .refl catalog⟩
  | some found =>
      have interned := Dictionary.intern_of_number? found
      exact ⟨congrArg
        (fun entry : Nat × Dictionary => some (⟨entry.1⟩ : TypeId)) interned,
        congrArg Prod.snd interned, rfl⟩

/-- Interning a key that is known gives its number and adds nothing. -/
theorem internProperty_of_numbersKey {key : String} {property : PropertyId}
    (numbers : catalog.NumbersKey key property) :
    (internProperty key catalog).1 = property ∧
      catalog.SameNames (internProperty key catalog).2 := by
  have interned := Dictionary.intern_of_number? numbers
  exact ⟨congrArg (fun entry : Nat × Dictionary => (⟨entry.1⟩ : PropertyId))
    interned, rfl, congrArg Prod.snd interned⟩

end Catalog

/-- The action adds names at most.  Wherever the names that it has added are
known, it has the same outcome again and adds none.  It adds none either where
the names of the pattern are known. -/
structure Repeats
    {α : Type}
    (pattern : Pattern)
    (action : Planning α) : Prop where
  grows : StepLeads Catalog.Extends action
  again {catalog later : Catalog} (known : (action catalog).2.Extends later) :
    (action later).1 = (action catalog).1 ∧ later.SameNames (action later).2
  settled {catalog : Catalog} (known : catalog.KnowsNamesOf pattern) :
    catalog.SameNames (action catalog).2

namespace Repeats

variable {α β : Type} {pattern : Pattern}

/-- What depends on no catalog repeats. -/
theorem except (value : Except Error α) :
    Repeats pattern (liftM value : Planning α) where
  grows catalog := .refl catalog
  again _ := ⟨rfl, .refl _⟩
  settled _ := .refl _

theorem pure (value : α) : Repeats pattern (Pure.pure value : Planning α) :=
  except (.ok value)

/-- What follows a step has to repeat only for values that the step can
return. -/
theorem bind_of {Good : α → Prop} {first : Planning α} {next : α → Planning β}
    (repeats : Repeats pattern first) (returns : StepReturns Good first)
    (others : ∀ value, Good value → Repeats pattern (next value)) :
    Repeats pattern (first >>= next) where
  grows catalog := by
    have reached := repeats.grows catalog
    cases run : first catalog with
    | mk outcome middle =>
        rw [run] at reached
        cases outcome with
        | error error =>
            rw [run_bind_error run]
            exact reached
        | ok value =>
            rw [run_bind_ok run]
            exact reached.trans
              ((others value (returns _ _ _ run)).grows middle)
  again {catalog later} known := by
    have repeated : (first catalog).2.Extends later → _ := repeats.again
    cases run : first catalog with
    | mk outcome middle =>
        rw [run] at repeated
        cases outcome with
        | error error =>
            rw [run_bind_error run] at known ⊢
            obtain ⟨same, kept⟩ := repeated known
            have stopped : first later = (.error error, (first later).2) :=
              Prod.ext same rfl
            rw [run_bind_error stopped]
            exact ⟨rfl, kept⟩
        | ok value =>
            -- The second step keeps what the first has added, so that the later
            -- catalog knows it, and the first step leaves the later catalog as
            -- it is.
            have following := others value (returns _ _ _ run)
            rw [run_bind_ok run] at known ⊢
            obtain ⟨same, kept⟩ :=
              repeated ((following.grows middle).trans known)
            obtain ⟨sameNext, keptNext⟩ :=
              following.again (known.trans kept.extends)
            have passed : first later = (.ok value, (first later).2) :=
              Prod.ext same rfl
            rw [run_bind_ok passed]
            exact ⟨sameNext, kept.trans keptNext⟩
  settled {catalog} known := by
    have kept := repeats.settled known
    cases run : first catalog with
    | mk outcome middle =>
        rw [run] at kept
        cases outcome with
        | error error =>
            rw [run_bind_error run]
            exact kept
        | ok value =>
            rw [run_bind_ok run]
            have following := others value (returns _ _ _ run)
            exact kept.trans (following.settled (known.mono kept.extends))

theorem bind
    {first : Planning α}
    {next : α → Planning β}
    (repeats : Repeats pattern first)
    (others : ∀ value, Repeats pattern (next value)) :
    Repeats pattern (first >>= next) :=
  repeats.bind_of (fun _ _ _ _ => trivial) fun value (_ : True) => others value

/-- Steps that repeat one by one repeat together. -/
theorem mapM {items : List α} {action : α → Planning β}
    (each : ∀ item ∈ items, Repeats pattern (action item)) :
    Repeats pattern (items.mapM action) := by
  induction items with
  | nil => exact pure []
  | cons first rest inductionHypothesis =>
      rw [List.mapM_cons]
      exact (each first (.head _)).bind fun value =>
        (inductionHypothesis fun item member => each item (.tail _ member)).bind
          fun values =>
            pure (value :: values)

/-- Interning a type again gives its number again. -/
theorem internType? {name : Option String}
    (asked : ∀ catalog : Catalog, catalog.KnowsNamesOf pattern →
      ∃ type, catalog.Numbers name type) :
    Repeats pattern
      (liftM (Catalog.internType? name) : Planning (Option TypeId)) where
  grows catalog := (Catalog.internType?_spec name catalog).1
  again {catalog later} known := by
    obtain ⟨_, numbers⟩ := Catalog.internType?_spec name catalog
    obtain ⟨same, kept⟩ := Catalog.internType?_of_numbers (numbers.mono known)
    exact ⟨congrArg Except.ok same, kept⟩
  settled {catalog} known := by
    obtain ⟨type, numbers⟩ := asked catalog known
    exact (Catalog.internType?_of_numbers numbers).2

/-- Interning a key again gives its number again. -/
theorem internProperty {key : String}
    (asked : ∀ catalog : Catalog, catalog.KnowsNamesOf pattern →
      ∃ property, catalog.NumbersKey key property) :
    Repeats pattern
      (liftM (Catalog.internProperty key) : Planning PropertyId) where
  grows catalog := (Catalog.internProperty_spec key catalog).1
  again {catalog later} known := by
    obtain ⟨_, numbers⟩ := Catalog.internProperty_spec key catalog
    obtain ⟨same, kept⟩ :=
      Catalog.internProperty_of_numbersKey (numbers.mono known)
    exact ⟨congrArg Except.ok same, kept⟩
  settled {catalog} known := by
    obtain ⟨property, numbers⟩ := asked catalog known
    exact (Catalog.internProperty_of_numbersKey numbers).2

end Repeats

/-! ## Planning -/

namespace PlanContext

variable {context : PlanContext} {pattern : Pattern}

theorem repeats_ofPattern (pattern : Pattern) :
    Repeats pattern (PlanContext.ofPattern pattern) := by
  rw [PlanContext.ofPattern]
  cases pattern.fault? with
  | some fault => exact .except (.error (.plan fault))
  | none =>
      exact Repeats.bind
        (.mapM fun relation member => .internType? fun catalog known =>
          known.relations member) fun types => .pure _

/-- A condition is planned again with the same number for its key. -/
theorem repeats_condition (order : List String) {predicate : Predicate}
    (member : predicate ∈ pattern.predicates) :
    Repeats pattern (context.condition order predicate) := by
  have left : predicate.left ∈ predicate.references := by
    unfold Predicate.references
    split <;> exact .head _
  have finish (right : ConditionOperand) : Repeats pattern (do
      let place ← context.placeOf order predicate.left.element
      let property ← Catalog.internProperty predicate.left.key
      return { place, property, comparison := predicate.comparison, right } :
        Planning Condition) :=
    .bind (.except _) fun place => .bind (.internProperty fun catalog known =>
      known.references member left) fun property => .pure _
  rw [condition]
  cases operand : predicate.right with
  | literal value => exact finish (.literal value)
  | property reference =>
      have mentioned : reference ∈ predicate.references := by
        rw [Predicate.references, operand]
        exact .tail _ (.head _)
      exact .bind (.except _) fun place =>
        .bind (.internProperty fun catalog known =>
          known.references member mentioned) fun property =>
            finish (.property place property)

/-- With the same names a plan comes out again as it was. -/
theorem repeats_plan (about : context.pattern = pattern) (order : List String)
    (difference : Option Difference) (readAs : Nat → Except Error Version) :
    Repeats pattern (context.plan order difference readAs) := by
  subst about
  refine .bind (.except _) fun stages => .bind (.except _) fun lookups => ?_
  refine .bind (.mapM fun name _ => .except _) fun columns => ?_
  refine .bind (.mapM fun predicate member => repeats_condition order member)
    fun conditions => ?_
  refine .bind
    (.mapM fun name _ => .internType? fun catalog known => known.declared name)
    fun types => .pure _

theorem repeats_deltasOf
    (about : context.pattern = pattern)
    (versions : RelationVersions)
    (index : Nat)
    (relation : Relation) :
    Repeats pattern (context.deltasOf versions index relation) :=
  .mapM fun _ _ => .bind (repeats_plan about _ _ _) fun _ => .pure _

/-- The delta plans of one relation after another come out again. -/
theorem repeats_deltasFrom
    (about : context.pattern = pattern)
    (versions : RelationVersions)
    (index : Nat)
    (relations : List Relation) :
    Repeats pattern (context.deltasFrom versions index relations) := by
  induction relations generalizing versions index with
  | nil => exact .pure []
  | cons relation rest inductionHypothesis =>
      exact .bind (repeats_deltasOf about _ index relation) fun deltas =>
        .bind (inductionHypothesis _ _) fun later => .pure (deltas ++ later)

end PlanContext

/-- A pattern is planned alike again, wherever its names are known. -/
theorem Plan.repeats_ofPattern (pattern : Pattern) :
    Repeats pattern (Plan.ofPattern pattern) :=
  (PlanContext.repeats_ofPattern pattern).bind_of
    (PlanContext.returns_ofPattern pattern)
    fun _ about => PlanContext.repeats_plan about.1 _ _ _

theorem StandingPlan.repeats_ofPattern (pattern : Pattern) :
    Repeats pattern (StandingPlan.ofPattern pattern) :=
  (PlanContext.repeats_ofPattern pattern).bind_of
    (PlanContext.returns_ofPattern pattern)
    fun _ about =>
      .bind (PlanContext.repeats_deltasFrom about.1 _ _ _) fun _ => .pure _

/-! ## Where the names of a pattern are known -/

/-- A name that is not a variable has no type. -/
theorem Pattern.typeOf?_eq_none {pattern : Pattern} {name : String}
    (unknown : name ∉ pattern.variableNames) : pattern.typeOf? name = none := by
  have missing : pattern.find? name = none := by
    refine List.find?_eq_none.mpr fun declared member same => unknown ?_
    rw [← eq_of_beq same]
    exact List.mem_map_of_mem member
  rw [typeOf?, missing, Option.bind_none]

/-- A plan that implements a pattern has the numbers of all its names. -/
theorem Plan.Implements.knowsNamesOf
    {plan : Plan}
    {pattern : Pattern}
    {catalog : Catalog}
    {reading : Nat → Version}
    (implements : plan.Implements pattern catalog reading) :
    catalog.KnowsNamesOf pattern where
  relations {relation} member := by
    obtain ⟨index, found⟩ := List.getElem?_of_mem member
    obtain ⟨lookup, _, renders⟩ := exists_right_of_forall₂ implements.lookups
      (List.mem_zipIdx_iff_getElem?.mpr found : (relation, index) ∈ _)
    exact ⟨lookup.type, renders.type⟩
  declared name := by
    by_cases known : name ∈ pattern.variableNames
    · obtain ⟨type, _, numbers⟩ :=
        exists_right_of_forall₂ implements.types
          ((implements.mem_order name).mpr known)
      exact ⟨type, numbers⟩
    · rw [Pattern.typeOf?_eq_none known]
      exact ⟨none, .none⟩
  references {predicate} member reference mentioned := by
    obtain ⟨condition, _, renders⟩ :=
      exists_right_of_forall₂ implements.conditions member
    have right := renders.right
    unfold Predicate.references at mentioned
    cases operand : predicate.right with
    | literal value =>
        rw [operand] at mentioned
        cases List.mem_singleton.mp mentioned
        exact ⟨condition.property, renders.property⟩
    | property other =>
        rw [operand] at mentioned right
        rcases List.mem_cons.mp mentioned with rfl | last
        · exact ⟨condition.property, renders.property⟩
        · cases List.mem_singleton.mp last
          cases found : condition.right with
          | literal value =>
              rw [found] at right
              cases right
          | property place property =>
              rw [found] at right
              exact ⟨property, right.2⟩

/-- A catalog with which a standing plan was made knows the names of the
pattern. -/
theorem StandingPlan.Implements.knowsNamesOf
    {plan : StandingPlan}
    {pattern : Pattern}
    {catalog : Catalog}
    (implements : plan.Implements pattern catalog)
    (nonempty : pattern.relations ≠ []) :
    catalog.KnowsNamesOf pattern := by
  obtain ⟨relation, rest, split⟩ := List.exists_cons_of_ne_nil nonempty
  have first :
      (⟨0, .additions⟩ : Difference) ∈
        Relation.differences 0 pattern.relations := by
    rw [split]
    exact .head _
  obtain ⟨delta, _, started⟩ := exists_right_of_forall₂ implements first
  exact started.plan.knowsNamesOf

/-- Whatever is asked of the catalog next, planning then gives the plan, with
the same fingerprint, and changes no dictionary. -/
def Catalog.Replans {α : Type} (catalog : Catalog) (planning : Planning α)
    (describe : α → Description) (plan : α) : Prop :=
  ∀ calls, let reached := (catalog.run calls).2
    ∃ again after, planning reached = (.ok again, after) ∧ again = plan ∧
      (describe again).fingerprint = (describe plan).fingerprint ∧
      reached.SameNames after

namespace Repeats

variable {α : Type} {pattern : Pattern} {planning : Planning α}
  {catalog later : Catalog}
  {plan : α}

/-- Planning gives the same plan again in every catalog that knows what it has
added. -/
theorem again_ok (repeats : Repeats pattern planning)
    (planned : planning catalog = (.ok plan, later)) {reached : Catalog}
    (grows : later.Extends reached) :
    ∃ after, planning reached = (.ok plan, after) ∧
      reached.SameNames after := by
  obtain ⟨same, kept⟩ := repeats.again (by rw [planned]; exact grows)
  rw [planned] at same
  exact ⟨(planning reached).2, Prod.ext same rfl, kept⟩

/-- What planned once plans again, with the same plan and the same
description. -/
theorem replans
    (repeats : Repeats pattern planning)
    (planned : planning catalog = (.ok plan, later))
    (describe : α → Description) :
    later.Replans planning describe plan := by
  intro calls reached
  obtain ⟨after, again, kept⟩ :=
    repeats.again_ok planned (Catalog.extends_run calls later)
  exact ⟨plan, after, again, rfl, rfl, kept⟩

/-- Where the names are known already, the plan is the same from the start. -/
theorem replans_of_known
    (repeats : Repeats pattern planning)
    (known : catalog.KnowsNamesOf pattern)
    (planned : planning catalog = (.ok plan, later))
    (describe : α → Description) :
    catalog.Replans planning describe plan := by
  intro calls reached
  have kept : catalog.SameNames later := by
    have settled := repeats.settled known
    rwa [planned] at settled
  have grows := kept.symm.extends.trans (Catalog.extends_run calls catalog)
  obtain ⟨after, again, same⟩ := repeats.again_ok planned grows
  exact ⟨plan, after, again, rfl, rfl, same⟩

end Repeats

/-- A valid pattern that has been planned once, by either planner, has the same
plan with the same fingerprint ever after, and planning it again changes no
dictionary.  From then on this also holds of the plans that the other planner
makes. -/
theorem Pattern.replans_alike
    {pattern : Pattern}
    (valid : pattern.validate = .ok ())
    (catalog : Catalog) :
    ∃ plan later standing laterStanding,
      Plan.ofPattern pattern catalog = (.ok plan, later) ∧
      StandingPlan.ofPattern pattern catalog = (.ok standing, laterStanding) ∧
      later.Replans (Plan.ofPattern pattern) Plan.describe plan ∧
      laterStanding.Replans (StandingPlan.ofPattern pattern)
        StandingPlan.describe standing ∧
      (∃ other,
        later.Replans (StandingPlan.ofPattern pattern) StandingPlan.describe
          other) ∧
      ∃ other,
        laterStanding.Replans (Plan.ofPattern pattern) Plan.describe other := by
  have faultless := Pattern.fault?_of_validate valid
  have nonempty := (Pattern.valid_of_fault? faultless).nonempty
  obtain ⟨plan, later, planned, _, implements, _⟩ :=
    Plan.run_ofPattern faultless catalog
  obtain ⟨standing, laterStanding, plannedStanding, _, implementsStanding⟩ :=
    StandingPlan.run_ofPattern faultless catalog
  obtain ⟨_, _, run, _⟩ := Plan.run_ofPattern faultless laterStanding
  obtain ⟨_, _, runStanding, _⟩ := StandingPlan.run_ofPattern faultless later
  have repeats := Plan.repeats_ofPattern pattern
  have repeatsStanding := StandingPlan.repeats_ofPattern pattern
  exact ⟨plan, later, standing, laterStanding, planned, plannedStanding,
    repeats.replans planned _, repeatsStanding.replans plannedStanding _,
    ⟨_, repeatsStanding.replans_of_known implements.knowsNamesOf runStanding _⟩,
    ⟨_,
      repeats.replans_of_known (implementsStanding.knowsNamesOf nonempty)
        run _⟩⟩

/-- A pattern with types and keys, planned again after another type was
interned. -/
theorem Pattern.replans_alike_after_new_type :
    let pattern : Pattern :=
      { declared := [⟨"a", some "person"⟩, ⟨"b", some "city"⟩]
        relations := [⟨"a", "b", some "lives", none⟩]
        predicates := [⟨⟨"a", "born"⟩, .equal, .property ⟨"b", "name"⟩⟩] }
    pattern.validate = .ok () ∧
    ∃ plan later standing laterStanding,
      Plan.ofPattern pattern .empty = (.ok plan, later) ∧
      StandingPlan.ofPattern pattern .empty = (.ok standing, laterStanding) ∧
      let reached :=
        (later.run [.internType (some "river"), .findProperty "length"]).2
      ∃ again after, Plan.ofPattern pattern reached = (.ok again, after) ∧
        again = plan ∧
        again.describe.fingerprint = plan.describe.fingerprint ∧
        reached.SameNames after := by
  intro pattern
  have valid : pattern.validate = .ok () := by decide +kernel
  obtain ⟨plan, later, standing, laterStanding, planned, plannedStanding,
      replans, _⟩ :=
    Pattern.replans_alike valid .empty
  exact ⟨valid, plan, later, standing, laterStanding, planned, plannedStanding,
    replans _⟩

end DeltaGraph
