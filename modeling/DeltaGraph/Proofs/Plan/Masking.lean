import DeltaGraph.Plan.Explain
import DeltaGraph.Proofs.Plan.OfPattern

/-!
# Masked descriptions

Patterns that differ in the literals of their predicates only are planned alike:
the plans differ in the literals of their conditions only, and the same names
are interned on the way.  A description shows literals only in the settings that
are marked, so that with these masked the descriptions are equal.  The
fingerprints are equal too.
-/

namespace DeltaGraph

/-! ## Masking -/

/-- The setting with its value masked, if it shows literals. -/
def Setting.masked (mask : String) (setting : Setting) : Setting :=
  if setting.showsLiterals then { setting with value := mask } else setting

namespace Operator

mutual

/-- The operator and its inputs with masked settings. -/
def masked (mask : String) : Operator → Operator
  | node name settings inputs =>
      node name (settings.map (Setting.masked mask)) (maskedAll mask inputs)

/-- Operators with masked settings. -/
def maskedAll (mask : String) : List Operator → List Operator
  | [] => []
  | first :: rest => masked mask first :: maskedAll mask rest

end

end Operator

/-- The description with masked settings. -/
def Description.masked
    (mask : String)
    (description : Description) : Description :=
  { description with root := description.root.masked mask }

/-! ## Equal up to literals -/

/-- The operands are both literals, or the same property. -/
inductive Operand.Alike : Operand → Operand → Prop
  | literal (first second : Value) : Alike (.literal first) (.literal second)
  | property (reference : PropertyReference) :
      Alike (.property reference) (.property reference)

/-- The predicates are equal up to their literals. -/
structure Predicate.Alike (first second : Predicate) : Prop where
  left : second.left = first.left
  comparison : second.comparison = first.comparison
  right : first.right.Alike second.right

/-- The patterns are equal up to the literals of their predicates. -/
structure Pattern.Alike (first second : Pattern) : Prop where
  declared : second.declared = first.declared
  relations : second.relations = first.relations
  predicates : List.Forall₂ Predicate.Alike first.predicates second.predicates

/-- The right-hand sides are both literals, or the same property. -/
inductive ConditionOperand.Alike : ConditionOperand → ConditionOperand → Prop
  | literal (first second : Value) : Alike (.literal first) (.literal second)
  | property (place : Place) (property : PropertyId) :
      Alike (.property place property) (.property place property)

/-- The conditions are equal up to their literals. -/
structure Condition.Alike (first second : Condition) : Prop where
  place : second.place = first.place
  property : second.property = first.property
  comparison : second.comparison = first.comparison
  right : first.right.Alike second.right

/-- The plans are equal up to the literals of their conditions. -/
structure Plan.Alike (first second : Plan) : Prop where
  rest : second = { first with conditions := second.conditions }
  conditions : List.Forall₂ Condition.Alike first.conditions second.conditions

/-- The delta plans are equal up to literals. -/
structure DeltaPlan.Alike (first second : DeltaPlan) : Prop where
  relation : second.relation = first.relation
  version : second.version = first.version
  plan : first.plan.Alike second.plan

/-- The plans of standing patterns are equal up to literals. -/
structure StandingPlan.Alike (first second : StandingPlan) : Prop where
  relationNames : second.relationNames = first.relationNames
  variableNames : second.variableNames = first.variableNames
  deltas : List.Forall₂ DeltaPlan.Alike first.deltas second.deltas

/-! ## Steps with related results -/

/-- Both succeed with related results, or both fail with one error. -/
inductive OutcomesAlike {α β : Type} (related : α → β → Prop) :
    Except Error α → Except Error β → Prop
  | ok {value : α} {other : β} (alike : related value other) :
      OutcomesAlike related (.ok value) (.ok other)
  | error (error : Error) : OutcomesAlike related (.error error) (.error error)

/-- What shows related results alike shows the outcomes alike. -/
theorem OutcomesAlike.map_eq
    {α β γ : Type}
    {related : α → β → Prop}
    {shown : α → γ}
    {otherShown : β → γ}
    (same : ∀ value other, related value other → otherShown other = shown value)
    {outcome : Except Error α}
    {other : Except Error β}
    (alike : OutcomesAlike related outcome other) :
    outcome.map shown = other.map otherShown := by
  cases alike with
  | ok here => exact congrArg Except.ok (same _ _ here).symm
  | error error => rfl

/-- From every catalog both steps lead to the same catalog, with related
results. -/
def RunAlike
    {α β : Type}
    (related : α → β → Prop)
    (first : Planning α)
    (second : Planning β) :
    Prop :=
  ∀ catalog, (second catalog).2 = (first catalog).2 ∧
    OutcomesAlike related (first catalog).1 (second catalog).1

namespace RunAlike

variable {α β γ δ : Type} {related : α → β → Prop}

theorem pure {value : α} {other : β} (alike : related value other) :
    RunAlike related (Pure.pure value) (Pure.pure other) :=
  fun _ => ⟨rfl, .ok alike⟩

/-- A step runs like itself. -/
theorem refl (step : Planning α) : RunAlike (· = ·) step step := by
  intro catalog
  refine ⟨rfl, ?_⟩
  cases (step catalog).1 with
  | ok value => exact .ok rfl
  | error error => exact .error error

/-- Actions that run alike, one after the other, run alike. -/
theorem bind
    {following : γ → δ → Prop}
    {first : Planning α}
    {second : Planning β}
    {next : α → Planning γ}
    {other : β → Planning δ}
    (alike : RunAlike related first second)
    (later : ∀ value another, related value another →
      RunAlike following (next value) (other another)) :
    RunAlike following (first >>= next) (second >>= other) := by
  intro catalog
  obtain ⟨same, outcomes⟩ := alike catalog
  cases run : first catalog with
  | mk outcome middle =>
      cases again : second catalog with
      | mk another reached =>
          rw [run, again] at same outcomes
          cases same
          cases outcomes with
          | ok here =>
              rw [run_bind_ok run, run_bind_ok again]
              exact later _ _ here middle
          | error error =>
              rw [run_bind_error run, run_bind_error again]
              exact ⟨rfl, .error error⟩

/-- Steps that begin alike run alike if they go on alike. -/
theorem bind_self
    {following : γ → δ → Prop}
    {step : Planning α}
    {next : α → Planning γ}
    {other : α → Planning δ}
    (later : ∀ value, RunAlike following (next value) (other value)) :
    RunAlike following (step >>= next) (step >>= other) := by
  refine (refl step).bind ?_
  rintro value _ rfl
  exact later value

/-- Running alike steps over lists that match item by item gives lists of
results that match item by item. -/
theorem mapM
    {items : List γ}
    {others : List δ}
    {between : γ → δ → Prop}
    {step : γ → Planning α}
    {other : δ → Planning β}
    (alike : List.Forall₂ between items others)
    (each : ∀ item another, between item another →
      RunAlike related (step item) (other another)) :
    RunAlike (List.Forall₂ related) (items.mapM step) (others.mapM other) := by
  induction alike with
  | nil => exact pure .nil
  | cons first _ inductionHypothesis =>
      rw [List.mapM_cons, List.mapM_cons]
      exact (each _ _ first).bind fun _ _ here =>
        inductionHypothesis.bind fun _ _ there =>
          pure (.cons here there)

end RunAlike

/-! ## Planning patterns that are equal up to literals -/

/-- Predicates that differ in literals only read the same properties. -/
theorem Predicate.Alike.references
    {first second : Predicate}
    (alike : first.Alike second) :
    second.references = first.references := by
  obtain ⟨left, comparison, right⟩ := first
  obtain ⟨otherLeft, otherComparison, otherRight⟩ := second
  obtain ⟨rfl, rfl, right⟩ := alike
  cases right <;> rfl

namespace Pattern.Alike

variable {first second : Pattern}

theorem eq (alike : first.Alike second) :
    second = { first with predicates := second.predicates } := by
  cases second
  cases alike.declared
  cases alike.relations
  rfl

/-- Two patterns that differ in literals only have the same first fault. -/
theorem fault? (alike : first.Alike second) : second.fault? = first.fault? := by
  have references : second.predicates.flatMap Predicate.references =
      first.predicates.flatMap Predicate.references :=
    congrArg List.flatten
      (map_eq_map_of_forall₂ alike.predicates fun _ _ =>
        Predicate.Alike.references)
  have unknown : second.unknownElement? = first.unknownElement? := by
    rw [unknownElement?, unknownElement?, references, alike.eq]
    rfl
  rw [Pattern.fault?, Pattern.fault?, unknown, alike.eq]
  rfl

end Pattern.Alike

namespace PlanContext

variable {first second : Pattern}

/-- The context with other predicates. -/
def withPredicates
    (context : PlanContext)
    (predicates : List Predicate) : PlanContext :=
  { context with pattern := { context.pattern with predicates } }

/-- The contexts of two patterns are equal up to their predicates. -/
structure Alike
    (first second : Pattern)
    (context other : PlanContext) : Prop where
  pattern : context.pattern = first
  rest : other = context.withPredicates second.predicates

/-- Preparing two alike patterns for planning runs alike: the same names are
interned in the same order. -/
theorem runAlike_ofPattern (alike : first.Alike second) :
    RunAlike (Alike first second) (PlanContext.ofPattern first)
      (PlanContext.ofPattern second) := by
  rw [PlanContext.ofPattern, PlanContext.ofPattern, alike.fault?]
  cases first.fault? with
  | some fault => exact fun _ => ⟨rfl, .error (.plan fault)⟩
  | none =>
      rw [alike.relations]
      refine .bind_self fun types => ?_
      rw [alike.eq]
      exact .pure ⟨rfl, rfl⟩

/-- Two alike predicates compile to conditions that differ in their literals
only. -/
theorem runAlike_condition
    (context : PlanContext)
    (predicates : List Predicate)
    (order : List String)
    {predicate other : Predicate}
    (alike : predicate.Alike other) :
    RunAlike Condition.Alike (context.condition order predicate)
      ((context.withPredicates predicates).condition order other) := by
  obtain ⟨_, _, right⟩ := predicate
  obtain ⟨left, comparison, otherRight⟩ := other
  obtain ⟨rfl, rfl, operands⟩ := alike
  -- The left-hand side comes last, after whatever the right-hand side interns.
  have finish {right otherRight : ConditionOperand}
      (operands : right.Alike otherRight) :
      RunAlike Condition.Alike
        (do let place ← context.placeOf order left.element
            let property ← Catalog.internProperty left.key
            return { place, property, comparison, right } : Planning Condition)
        (do let place ← context.placeOf order left.element
            let property ← Catalog.internProperty left.key
            return { place, property, comparison, right := otherRight } :
              Planning Condition) :=
    .bind_self fun _ => .bind_self fun _ => .pure ⟨rfl, rfl, rfl, operands⟩
  cases operands with
  | literal value another => exact finish (.literal value another)
  | property reference =>
      exact .bind_self fun place =>
        .bind_self fun property => finish (.property place property)

/-- One layout of alike patterns gives plans that differ in literals only. -/
theorem runAlike_plan (context : PlanContext) {predicates : List Predicate}
    (alike : List.Forall₂ Predicate.Alike context.pattern.predicates predicates)
    (order : List String) (difference : Option Difference)
    (readAs : Nat → Except Error Version) :
    RunAlike Plan.Alike (context.plan order difference readAs)
      ((context.withPredicates predicates).plan order difference readAs) := by
  have stages :
      (context.withPredicates predicates).stages difference readAs
        (order.take 1)
        (order.drop 1) =
          context.stages difference readAs (order.take 1) (order.drop 1) :=
    context.stages_of_relations
      (rfl : (context.withPredicates predicates).pattern.relations = _) ..
  rw [plan, plan, stages]
  refine .bind_self fun stages =>
    .bind_self fun lookups => .bind_self fun columns => ?_
  refine .bind
    (.mapM alike fun _ _ => context.runAlike_condition predicates order)
    fun conditions others same => ?_
  exact .bind_self fun types => .pure ⟨rfl, same⟩

theorem runAlike_deltasOf (context : PlanContext) {predicates : List Predicate}
    (alike : List.Forall₂ Predicate.Alike context.pattern.predicates predicates)
    (versions : RelationVersions) (index : Nat) (relation : Relation) :
    RunAlike (List.Forall₂ DeltaPlan.Alike)
      (context.deltasOf versions index relation)
      ((context.withPredicates predicates).deltasOf versions index
        relation) := by
  have same :
      List.Forall₂ (· = ·) [Version.additions, .removals]
        [.additions, .removals] :=
    List.forall₂_same.mpr fun _ _ => rfl
  refine .mapM same ?_
  rintro version _ rfl
  exact .bind (context.runAlike_plan alike _ _ _) fun plan other same =>
    .pure ⟨rfl, rfl, same⟩

/-- The delta plans of a list of relations, written for alike patterns, differ
in literals only. -/
theorem runAlike_deltasFrom
    (context : PlanContext)
    {predicates : List Predicate}
    (alike : List.Forall₂ Predicate.Alike context.pattern.predicates predicates)
    (versions : RelationVersions)
    (index : Nat)
    (relations : List Relation) :
    RunAlike (List.Forall₂ DeltaPlan.Alike)
      (context.deltasFrom versions index relations)
      ((context.withPredicates predicates).deltasFrom versions index
        relations) := by
  induction relations generalizing versions index with
  | nil => exact .pure .nil
  | cons relation rest inductionHypothesis =>
      refine .bind (context.runAlike_deltasOf alike _ index relation)
        fun deltas others here => ?_
      refine .bind (inductionHypothesis _ _) fun later laterOthers there => ?_
      exact .pure (List.rel_append here there)

end PlanContext

/-- The plans for the rows of patterns that are equal up to literals are so
too. -/
theorem Plan.runAlike_ofPattern
    {first second : Pattern}
    (alike : first.Alike second) :
    RunAlike Plan.Alike (Plan.ofPattern first) (Plan.ofPattern second) := by
  refine .bind (PlanContext.runAlike_ofPattern alike) ?_
  rintro context _ ⟨rfl, rfl⟩
  exact context.runAlike_plan alike.predicates _ _ _

/-- Standing planning of alike patterns runs alike. -/
theorem StandingPlan.runAlike_ofPattern
    {first second : Pattern}
    (alike : first.Alike second) :
    RunAlike StandingPlan.Alike (StandingPlan.ofPattern first)
      (StandingPlan.ofPattern second) := by
  rw [StandingPlan.ofPattern, StandingPlan.ofPattern, alike.relations,
    Pattern.variableNames, Pattern.variableNames, alike.declared]
  refine .bind (PlanContext.runAlike_ofPattern alike) ?_
  rintro context _ ⟨rfl, rfl⟩
  refine .bind (context.runAlike_deltasFrom alike.predicates _ _ _)
    fun deltas others same => ?_
  exact .pure ⟨rfl, rfl, same⟩

/-! ## Descriptions -/

theorem Operator.maskedAll_eq_map (mask : String) (operators : List Operator) :
    maskedAll mask operators = operators.map (masked mask) := by
  induction operators with
  | nil => rfl
  | cons first rest inductionHypothesis =>
      rw [maskedAll, inductionHypothesis, List.map_cons]

namespace Plan.Alike

variable {first second : Plan}

/-- Plans that differ in literals only hash to the same value. -/
theorem fingerprint (alike : first.Alike second) :
    second.fingerprint = first.fingerprint := by
  have bytes : second.bytes = first.bytes := by
    rw [Plan.bytes, Plan.bytes, alike.conditions.length_eq, alike.rest]
  rw [Plan.fingerprint, Plan.fingerprint, bytes]

/-- The operators before the filter do not read the conditions. -/
theorem extendOperators
    (alike : first.Alike second)
    (input : Operator)
    (slot : Nat)
    (stages : List Stage) :
    second.extendOperators input slot stages =
      first.extendOperators input slot stages := by
  induction stages generalizing input slot with
  | nil => rfl
  | cons stage rest inductionHypothesis =>
      rw [Plan.extendOperators, Plan.extendOperators, inductionHypothesis,
        alike.rest]

/-- All settings of a filter show literals, so that only their number is
left. -/
theorem masked_filterOperator
    (alike : first.Alike second)
    (mask : String)
    (input : Operator) :
    (second.filterOperator input).masked mask =
      (first.filterOperator input).masked mask := by
  have length := alike.conditions.length_eq
  have empty : second.conditions.isEmpty = first.conditions.isEmpty := by
    rw [Bool.eq_iff_iff, List.isEmpty_iff_length_eq_zero,
      List.isEmpty_iff_length_eq_zero, length]
  have settings (conditions : List Condition) :
      (conditions.map fun condition =>
        (⟨"predicate", condition.text, true⟩ : Setting)).map
        (Setting.masked mask) =
          List.replicate conditions.length ⟨"predicate", mask, true⟩ := by
    rw [List.map_map]
    change conditions.map (fun _ => (⟨"predicate", mask, true⟩ : Setting)) = _
    exact List.map_const' ..
  rw [Plan.filterOperator, Plan.filterOperator, empty]
  split
  · rfl
  · rw [Operator.masked, Operator.masked, settings, settings, length]

/-- With their literals masked, plans that differ in literals only have one
operator tree. -/
theorem masked_operators (alike : first.Alike second) (mask : String) :
    second.operators.masked mask = first.operators.masked mask := by
  have bound :
      second.extendOperators second.scanOperator 2 (second.stages.drop 1) =
        first.extendOperators first.scanOperator 2 (first.stages.drop 1) := by
    rw [alike.extendOperators, alike.rest]
    rfl
  have resolve : second.resolveOperator = first.resolveOperator := by
    rw [alike.rest]
    rfl
  have kind : second.rowKind = first.rowKind := by
    rw [alike.rest]
    rfl
  rw [Plan.operators, Plan.operators, bound, resolve, kind]
  simp only [Operator.masked, Operator.maskedAll, alike.masked_filterOperator]

theorem masked_describe (alike : first.Alike second) (mask : String) :
    second.describe.masked mask = first.describe.masked mask := by
  rw [Plan.describe, Plan.describe, Description.masked, Description.masked,
    alike.masked_operators, alike.fingerprint]

end Plan.Alike

/-- Masking commutes with adding a setting to an operator. -/
theorem Operator.masked_withSetting
    (mask : String)
    (setting : Setting)
    (operator : Operator) :
    (operator.withSetting setting).masked mask =
      (operator.masked mask).withSetting (setting.masked mask) := by
  cases operator
  rfl

theorem DeltaPlan.Alike.masked_operators
    {first second : DeltaPlan}
    (alike : first.Alike second)
    (mask : String) :
    second.operators.masked mask = first.operators.masked mask := by
  rw [DeltaPlan.operators, DeltaPlan.operators, Operator.masked_withSetting,
    Operator.masked_withSetting, alike.plan.masked_operators, alike.relation,
    alike.version]

namespace StandingPlan.Alike

variable {first second : StandingPlan}

theorem fingerprint (alike : first.Alike second) :
    second.fingerprint = first.fingerprint := by
  have bytes :
      second.deltas.map (fun delta => wordBytes delta.plan.fingerprint.toNat) =
        first.deltas.map fun delta => wordBytes delta.plan.fingerprint.toNat :=
    map_eq_map_of_forall₂ alike.deltas fun delta other same =>
      by rw [same.plan.fingerprint]
  rw [StandingPlan.fingerprint, StandingPlan.fingerprint, List.flatMap,
    List.flatMap, bytes]

theorem masked_describe (alike : first.Alike second) (mask : String) :
    second.describe.masked mask = first.describe.masked mask := by
  have operators :
      (second.deltas.map DeltaPlan.operators).map (Operator.masked mask) =
        (first.deltas.map DeltaPlan.operators).map (Operator.masked mask) := by
    rw [List.map_map, List.map_map]
    exact map_eq_map_of_forall₂ alike.deltas fun delta other same =>
      same.masked_operators mask
  rw [StandingPlan.describe, StandingPlan.describe, Description.masked,
    Description.masked, Operator.masked, Operator.masked,
    Operator.maskedAll_eq_map, Operator.maskedAll_eq_map, operators,
    alike.relationNames, alike.fingerprint]

end StandingPlan.Alike

/-- Two patterns that are equal up to the literals of their predicates are valid
alike, and planning them leaves the same catalog behind.  With literals masked
the descriptions of their plans are equal, and so are the fingerprints; if
planning fails, it fails alike. -/
theorem Pattern.hides_literals
    {first second : Pattern}
    (alike : first.Alike second)
    (catalog : Catalog)
    (mask : String) :
    first.validate = second.validate ∧
    ((Plan.ofPattern first catalog).2 = (Plan.ofPattern second catalog).2 ∧
      (Plan.ofPattern first catalog).1.map (·.describe.masked mask) =
        (Plan.ofPattern second catalog).1.map (·.describe.masked mask) ∧
      (Plan.ofPattern first catalog).1.map (·.describe.fingerprint) =
        (Plan.ofPattern second catalog).1.map (·.describe.fingerprint)) ∧
    ((StandingPlan.ofPattern first catalog).2 =
      (StandingPlan.ofPattern second catalog).2 ∧
      (StandingPlan.ofPattern first catalog).1.map (·.describe.masked mask) =
        (StandingPlan.ofPattern second catalog).1.map (·.describe.masked mask) ∧
      (StandingPlan.ofPattern first catalog).1.map (·.describe.fingerprint) =
        (StandingPlan.ofPattern second catalog).1.map
          (·.describe.fingerprint)) := by
  obtain ⟨later, plans⟩ := Plan.runAlike_ofPattern alike catalog
  obtain ⟨laterStanding, standing⟩ :=
    StandingPlan.runAlike_ofPattern alike catalog
  refine ⟨?_,
    ⟨later.symm, plans.map_eq fun _ _ same => same.masked_describe mask,
      plans.map_eq fun _ _ same => same.fingerprint⟩,
    laterStanding.symm,
    standing.map_eq fun _ _ same => same.masked_describe mask,
    standing.map_eq fun _ _ same => same.fingerprint⟩
  rw [Pattern.validate, Pattern.validate, alike.fault?]

/-- A number and a string as literals. -/
theorem Pattern.hides_literals_of_two_kinds :
    let pattern (literal : Value) : Pattern :=
      { declared := [⟨"a", some "person"⟩, ⟨"b", none⟩]
        relations := [⟨"a", "b", some "knows", none⟩]
        predicates := [⟨⟨"a", "age"⟩, .less, .literal literal⟩] }
    let number := pattern (.int 42)
    let string := pattern (.string "secret")
    (number.Alike string ∧ number ≠ string ∧ number.validate = .ok ()) ∧
    (Plan.ofPattern number .empty).1.map (·.describe.masked "?") =
      (Plan.ofPattern string .empty).1.map (·.describe.masked "?") ∧
    (StandingPlan.ofPattern number .empty).1.map (·.describe.masked "?") =
      (StandingPlan.ofPattern string .empty).1.map (·.describe.masked "?") := by
  intro pattern number string
  have alike : number.Alike string :=
    ⟨rfl, rfl, .cons ⟨rfl, rfl, .literal (.int 42) (.string "secret")⟩ .nil⟩
  obtain ⟨_, ⟨_, shown, _⟩, _, shownStanding, _⟩ :=
    Pattern.hides_literals alike .empty "?"
  exact ⟨⟨alike, by decide, by decide +kernel⟩, shown, shownStanding⟩

end DeltaGraph
