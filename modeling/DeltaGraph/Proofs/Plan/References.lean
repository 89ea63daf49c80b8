import DeltaGraph.Proofs.Pattern.Names
import DeltaGraph.Proofs.Plan.OfPattern

/-!
# What predicates refer to

A predicate refers to a variable or a relation by its name, and a plan reads the
property at the place of this element.  If no variable has a name that is
generated for a relation, the name tells the element from all others.  Otherwise
a reference to the relation is taken for one to the variable.
-/

namespace DeltaGraph

/-- A vertex variable or a relation of a pattern, by its position. -/
inductive PatternElement
  | vertex (index : Nat)
  | relation (index : Nat)
  deriving DecidableEq

/-- The name of an element of a pattern. -/
def Pattern.nameOf? (pattern : Pattern) : PatternElement → Option String
  | .vertex index => pattern.variableNames[index]?
  | .relation index => pattern.relationNames[index]?

/-- The element that a name refers to: the variable with the name, or else the
relation. -/
def Pattern.referent?
    (pattern : Pattern)
    (name : String) : Option PatternElement :=
  match pattern.variableNames.idxOf? name with
  | some index => some (.vertex index)
  | none => (pattern.relationNames.idxOf? name).map .relation

/-- The place is that of the element: the slot that the column of the variable
shows, or the edge of the relation. -/
def Place.IsOf (plan : Plan) (place : Place) : PatternElement → Prop
  | .vertex index =>
      ∃ slot, plan.columns[index]? = some slot ∧ place = .vertex slot
  | .relation index => place = .edge index

/-- The place is that of the element to which the name refers. -/
def Place.Denotes
    (plan : Plan)
    (pattern : Pattern)
    (name : String)
    (place : Place) : Prop :=
  ∃ element, pattern.referent? name = some element ∧ place.IsOf plan element

/-- The conditions of a plan read what the predicates of the pattern refer
to. -/
def Plan.ReadsReferences (plan : Plan) (pattern : Pattern) : Prop :=
  List.Forall₂ (fun (predicate : Predicate) (condition : Condition) =>
      condition.place.Denotes plan pattern predicate.left.element ∧
        match predicate.right, condition.right with
        | .property reference, .property place _ =>
            place.Denotes plan pattern reference.element
        | .literal value, .literal other => other = value
        | _, _ => False)
    pattern.predicates plan.conditions

namespace Pattern

variable {pattern : Pattern} {name : String} {element : PatternElement}

theorem nameOf?_of_referent? (refers : pattern.referent? name = some element) :
    pattern.nameOf? element = some name := by
  rw [referent?] at refers
  split at refers
  · rename_i index found
    cases refers
    exact getElem?_of_idxOf? found
  · obtain ⟨index, found, rfl⟩ := Option.map_eq_some_iff.mp refers
    exact getElem?_of_idxOf? found

/-- If all elements have different names, an element is what its name refers
to. -/
theorem referent?_of_nameOf?
    (different : (pattern.variableNames ++ pattern.relationNames).Nodup)
    (named : pattern.nameOf? element = some name) :
    pattern.referent? name = some element := by
  obtain ⟨variablesDifferent, relationsDifferent, disjoint⟩ :=
    List.nodup_append'.mp different
  cases element with
  | vertex index =>
      obtain ⟨first, found⟩ := exists_idxOf? (List.mem_of_getElem? named)
      rw [referent?, found,
        slot_unique variablesDifferent (getElem?_of_idxOf? found) named]
  | relation index =>
      have member := List.mem_of_getElem? named
      have undeclared : pattern.variableNames.idxOf? name = none :=
        List.idxOf?_eq_none_iff.mpr fun declared => disjoint declared member
      obtain ⟨first, found⟩ := exists_idxOf? member
      rw [referent?, undeclared, found,
        slot_unique relationsDifferent (getElem?_of_idxOf? found) named]
      rfl

end Pattern

namespace Plan.Implements

variable {plan : Plan} {pattern : Pattern} {catalog : Catalog}
  {reading : Nat → Version}

/-- The column of a variable shows the slot that the variable is bound in. -/
theorem getElem?_columns
    (implements : plan.Implements pattern catalog reading)
    {index slot : Nat}
    {name : String}
    (named : pattern.variableNames[index]? = some name)
    (bound : plan.order[slot]? = some name) :
    plan.columns[index]? = some slot := by
  obtain ⟨column, shown, stands⟩ :=
    exists_getElem?_of_forall₂ implements.columns named
  rw [shown, slot_unique implements.different stands bound]

/-- A place that stands for a name is that of the element to which the name
refers. -/
theorem denotes
    (implements : plan.Implements pattern catalog reading)
    {place : Place}
    {name : String}
    (stands : place.StandsFor pattern plan.order name) :
    place.Denotes plan pattern name := by
  cases place with
  | vertex slot =>
      have declared :=
        (implements.mem_order name).mp (List.mem_of_getElem? stands)
      obtain ⟨index, found⟩ := exists_idxOf? declared
      refine ⟨.vertex index, by rw [Pattern.referent?, found], slot, ?_, rfl⟩
      exact implements.getElem?_columns (getElem?_of_idxOf? found) stands
  | edge index =>
      obtain ⟨undeclared, found⟩ := stands
      refine ⟨.relation index, ?_, rfl⟩
      rw [Pattern.referent?, List.idxOf?_eq_none_iff.mpr undeclared, found]
      rfl

theorem readsReferences (implements : plan.Implements pattern catalog reading) :
    plan.ReadsReferences pattern := by
  refine implements.conditions.imp fun predicate condition renders => ?_
  refine ⟨implements.denotes renders.place, ?_⟩
  have right := renders.right
  revert right
  cases predicate.right <;> cases condition.right <;> intro right
  case property.property => exact implements.denotes right.1
  all_goals exact right

end Plan.Implements

/-- In a pattern that is made of declarations the variables have different
names, and so have the relations, and every plan reads a reference of a
predicate at the place of the element to which the name refers.  All elements
have different names, and each is what its name refers to, unless a variable has
a name that is generated for a relation. -/
theorem Pattern.denotes_one_element
    {declarations : List Declaration}
    {pattern : Pattern}
    (built : Pattern.ofDeclarations declarations = .ok pattern) :
    pattern.variableNames.Nodup ∧ pattern.relationNames.Nodup ∧
      ((pattern.variableNames ++ pattern.relationNames).Nodup ↔
        ¬ pattern.HidesRelation) ∧
      (¬ pattern.HidesRelation → ∀ name element,
        pattern.referent? name = some element ↔
          pattern.nameOf? element = some name) ∧
      ∀ catalog,
        (∃ plan later, Plan.ofPattern pattern catalog = (.ok plan, later) ∧
          plan.ReadsReferences pattern) ∧
        ∃ standing later,
          StandingPlan.ofPattern pattern catalog = (.ok standing, later) ∧
          ∀ delta ∈ standing.deltas, delta.plan.ReadsReferences pattern := by
  obtain ⟨different, valid⟩ := Pattern.of_ofDeclarations built
  have faultless := Pattern.fault?_of_validate valid
  have names := Pattern.nodup_names_iff faultless different
  refine ⟨different, (Pattern.nodup_relationNames faultless).1, names,
    fun shown name element => ⟨Pattern.nameOf?_of_referent?,
      Pattern.referent?_of_nameOf? (names.mpr shown)⟩, fun catalog => ⟨?_, ?_⟩⟩
  · obtain ⟨plan, later, run, _, implements, _⟩ :=
      Plan.run_ofPattern faultless catalog
    exact ⟨plan, later, run, implements.readsReferences⟩
  · obtain ⟨standing, later, run, _, implements⟩ :=
      StandingPlan.run_ofPattern faultless catalog
    refine ⟨standing, later, run, fun delta member => ?_⟩
    obtain ⟨start, _, starts⟩ := exists_left_of_forall₂ implements member
    exact starts.plan.readsReferences

/-- A predicate between a relation with a generated name and one with a given
name. -/
theorem Pattern.denotes_one_element_of_generated_name :
    let declarations : List Declaration :=
      [.relation ⟨"a", some "person"⟩ ⟨"b", none⟩ none none,
        .relation ⟨"c", none⟩ ⟨"b", none⟩ (some "knows") (some "r"),
        .predicate ⟨⟨"0_anon_rel", "weight"⟩, .less, .property ⟨"r", "weight"⟩⟩]
    let pattern : Pattern :=
      { declared := [⟨"a", some "person"⟩, ⟨"b", none⟩, ⟨"c", none⟩]
        relations :=
          [⟨"a", "b", none, none⟩, ⟨"c", "b", some "knows", some "r"⟩]
        predicates :=
          [⟨⟨"0_anon_rel", "weight"⟩, .less, .property ⟨"r", "weight"⟩⟩] }
    Pattern.ofDeclarations declarations = .ok pattern ∧
      ¬ pattern.HidesRelation ∧
      pattern.referent? "0_anon_rel" = some (.relation 0) ∧
      pattern.referent? "r" = some (.relation 1) ∧
      ∃ plan later, Plan.ofPattern pattern Catalog.empty = (.ok plan, later) ∧
        plan.ReadsReferences pattern := by
  intro declarations pattern
  have built : Pattern.ofDeclarations declarations = .ok pattern := by
    decide +kernel
  have different : (pattern.variableNames ++ pattern.relationNames).Nodup := by
    decide +kernel
  obtain ⟨_, _, names, refers, reads⟩ := Pattern.denotes_one_element built
  have shown := names.mp different
  refine ⟨built, shown, (refers shown _ _).mpr ?_, (refers shown _ _).mpr ?_,
    (reads Catalog.empty).1⟩ <;> decide +kernel

/-- A variable hides a relation by its generated name, and takes its
predicate. -/
theorem Pattern.not_denotes_hidden_relation :
    let predicate : Predicate :=
      ⟨⟨"0_anon_rel", "weight"⟩, .less, .literal (.int 1)⟩
    let declarations : List Declaration :=
      [.relation ⟨"0_anon_rel", none⟩ ⟨"b", none⟩ none none,
        .predicate predicate]
    ∃ pattern, Pattern.ofDeclarations declarations = .ok pattern ∧
      pattern.nameOf? (.vertex 0) = some "0_anon_rel" ∧
      pattern.nameOf? (.relation 0) = some "0_anon_rel" ∧
      ¬ (pattern.variableNames ++ pattern.relationNames).Nodup ∧
      ∃ plan later, Plan.ofPattern pattern Catalog.empty = (.ok plan, later) ∧
        plan.conditions.map Condition.place = [.vertex 0] := by
  intro predicate declarations
  let pattern : Pattern :=
    { declared := [⟨"0_anon_rel", none⟩, ⟨"b", none⟩]
      relations := [⟨"0_anon_rel", "b", none, none⟩]
      predicates := [predicate] }
  let plan : Plan :=
    { order := ["0_anon_rel", "b"]
      types := [none, none]
      stages := [[⟨0, .forward, .permanent, none⟩]]
      lookups := [⟨"0_anon_rel", 0, 1, none, .permanent⟩]
      conditions := [⟨.vertex 0, ⟨0⟩, .less, .literal (.int 1)⟩]
      columns := [0, 1] }
  have planned : (Plan.ofPattern pattern Catalog.empty).1 = .ok plan := by
    decide +kernel
  have run : Plan.ofPattern pattern Catalog.empty =
      (.ok plan, (Plan.ofPattern pattern Catalog.empty).2) := by
        rw [← planned, Prod.eta]
  refine ⟨pattern, ?_, ?_, ?_, ?_, plan, _, run, rfl⟩ <;> decide +kernel

end DeltaGraph
