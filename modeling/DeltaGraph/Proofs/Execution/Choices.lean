import DeltaGraph.Execution.Pipeline
import DeltaGraph.Proofs.Execution.NestedLoops

/-!
# Choosing edges

The choices of edges for a tuple are a counter whose digits are positions in the
lists of edges.  Asked again and again, it gives every member of the product of
the lists once, in the lexicographic order of the positions, and then nothing
any more.
-/

namespace DeltaGraph

namespace EdgeChoices

/-! ## The invariant of the counter -/

/-- The choices from a cursor on. -/
def remaining : List (List EdgeId) → List Nat → List (List EdgeId)
  | edges :: choices, position :: cursor =>
      (remaining choices cursor).map (edges[position]?.toList ++ ·) ++
        (edges.drop (position + 1)).flatMap fun edge =>
          (products choices).map (edge :: ·)
  | _, _ => [[]]

/-- Each position of a cursor is inside its list. -/
def Inside (choices : List (List EdgeId)) (cursor : List Nat) : Prop :=
  List.Forall₂ (fun edges position => position < edges.length) choices cursor

theorem Inside.nonempty {choices : List (List EdgeId)} {cursor : List Nat}
    (inside : Inside choices cursor) : ∀ edges ∈ choices, edges ≠ [] := by
  rintro edges member rfl
  obtain ⟨position, _, below⟩ := exists_right_of_forall₂ inside member
  exact Nat.not_lt_zero position below

theorem inside_start
    {choices : List (List EdgeId)}
    (nonempty : ∀ edges ∈ choices, edges ≠ []) :
    Inside choices (choices.map fun _ => 0) := by
  rw [Inside, List.forall₂_map_right_iff, List.forall₂_same]
  exact fun edges member => List.length_pos_of_ne_nil (nonempty edges member)

theorem remaining_start {choices : List (List EdgeId)}
    (nonempty : ∀ edges ∈ choices, edges ≠ []) :
    remaining choices (choices.map fun _ => 0) = products choices := by
  induction choices with
  | nil => rfl
  | cons edges rest inductionHypothesis =>
      obtain ⟨here, later⟩ := List.forall_mem_cons.mp nonempty
      obtain ⟨first, others, rfl⟩ := List.exists_cons_of_ne_nil here
      rw [List.map_cons, remaining, inductionHypothesis later]
      rfl

/-- The first of the remaining choices is the one at the cursor, and the others
remain after the carry.  A cursor that runs over starts again. -/
theorem remaining_eq {choices : List (List EdgeId)} {cursor : List Nat}
    (inside : Inside choices cursor) :
    (∃ moved, carry choices cursor = (moved, false) ∧ Inside choices moved ∧
        remaining choices cursor =
          chosen choices cursor :: remaining choices moved) ∨
      carry choices cursor = (choices.map fun _ => 0, true) ∧
        remaining choices cursor = [chosen choices cursor] := by
  induction inside with
  | nil => exact .inr ⟨rfl, rfl⟩
  | @cons edges position choices cursor here later inductionHypothesis =>
      have found : edges[position]? = some edges[position] :=
        List.getElem?_eq_getElem here
      have first : chosen (edges :: choices) (position :: cursor) =
          edges[position] :: chosen choices cursor := by
        simp [chosen, found]
      rw [first, carry]
      -- The later positions move first, and this one moves only if they have
      -- run over.
      rcases inductionHypothesis
        with ⟨moved, carried, inside, left⟩ | ⟨carried, left⟩
      · refine .inl ⟨position :: moved, by rw [carried], .cons here inside, ?_⟩
        simp [remaining, left, found]
      · rw [carried]
        by_cases more : position + 1 < edges.length
        · have nonempty := Inside.nonempty later
          refine .inl ⟨_, if_pos more, .cons more (inside_start nonempty), ?_⟩
          simp only [remaining, left, found, remaining_start nonempty,
            List.map_cons, List.getElem?_eq_getElem more,
            List.drop_eq_getElem_cons more, List.flatMap_cons,
            Option.toList_some, List.map_nil, List.cons_append, List.nil_append]
        · refine .inr ⟨if_neg more, ?_⟩
          simp [remaining, left, found,
            List.drop_eq_nil_of_le (Nat.le_of_not_lt more)]

theorem products_eq_nil {choices : List (List EdgeId)} (empty : [] ∈ choices) :
    products choices = [] := by
  induction choices with
  | nil => cases empty
  | cons first rest inductionHypothesis =>
      rcases List.mem_cons.mp empty with rfl | later
      · rfl
      · simp [products, inductionHypothesis later]

/-- Unless the choices are exhausted, the cursor is inside the lists. -/
def Valid (state : EdgeChoices) : Prop :=
  state.exhausted = false → Inside state.choices state.cursor

/-- The choices that a state has still to give. -/
def outstanding (state : EdgeChoices) : List (List EdgeId) :=
  if state.exhausted then [] else remaining state.choices state.cursor

variable {state : EdgeChoices}

/-- A call gives the first of the outstanding choices and leaves the others. -/
theorem take?_cases (valid : state.Valid) :
    state.take? = none ∧ state.outstanding = [] ∨
      ∃ edges later, state.take? = some ({ state.base with edges }, later) ∧
        later.Valid ∧
        later.base = state.base ∧
        state.outstanding = edges :: later.outstanding := by
  obtain ⟨base, choices, cursor, exhausted⟩ := state
  cases exhausted with
  | true => exact .inl ⟨rfl, rfl⟩
  | false =>
      right
      rcases remaining_eq (valid rfl)
        with ⟨moved, carried, inside, left⟩ | ⟨carried, left⟩
      · refine ⟨chosen choices cursor, ⟨base, choices, moved, false⟩, ?_,
          fun _ => inside, rfl, left⟩
        simp [take?, carried]
      · refine ⟨chosen choices cursor,
          ⟨base, choices, choices.map fun _ => 0, true⟩, ?_, nofun, rfl, left⟩
        simp [take?, carried]

theorem valid_ofTuple (base : Binding) (choices : List (List EdgeId)) :
    (ofTuple base choices).Valid := by
  intro fresh
  refine inside_start fun edges member empty => ?_
  have exhausted : choices.any List.isEmpty = true :=
    List.any_eq_true.mpr ⟨edges, member, by simp [empty]⟩
  exact Bool.false_ne_true (fresh.symm.trans exhausted)

theorem outstanding_ofTuple (base : Binding) (choices : List (List EdgeId)) :
    (ofTuple base choices).outstanding = products choices := by
  by_cases empty : [] ∈ choices
  · have exhausted : choices.any List.isEmpty = true :=
      List.any_eq_true.mpr ⟨[], empty, rfl⟩
    rw [products_eq_nil empty]
    exact if_pos exhausted
  · have nonempty : ∀ edges ∈ choices, edges ≠ [] := by
      rintro edges member rfl
      exact empty member
    have fresh : ¬ choices.any List.isEmpty = true := by
      simpa using empty
    rw [← remaining_start nonempty]
    exact if_neg fresh

/-! ## Repeated calls -/

/-- The state after a call.  A call that gives nothing leaves the state as it
is. -/
def after (state : EdgeChoices) : EdgeChoices :=
  match state.take? with
  | some (_, later) => later
  | none => state

/-- What a call gives if the calls are repeated, where the first one is number
0. -/
def answer (state : EdgeChoices) : Nat → Option Binding
  | 0 => state.take?.map Prod.fst
  | call + 1 => state.after.answer call

/-- The calls give the outstanding choices one after another, and then
nothing. -/
theorem answer_eq (valid : state.Valid) (call : Nat) :
    state.answer call =
      state.outstanding[call]?.map fun edges => { state.base with edges } := by
  induction call generalizing state with
  | zero =>
      rcases take?_cases valid
        with ⟨taken, left⟩ | ⟨edges, later, taken, _, _, left⟩
      · rw [answer, taken, left]
        rfl
      · rw [answer, taken, left]
        rfl
  | succ call inductionHypothesis =>
      rcases take?_cases valid
        with ⟨taken, left⟩ | ⟨edges, later, taken, laterValid, base, left⟩
      · have same : state.after = state := by rw [after, taken]
        rw [answer, same, inductionHypothesis valid, left]
        rfl
      · have moved : state.after = later := by rw [after, taken]
        rw [answer, moved, inductionHypothesis laterValid, left, base,
          List.getElem?_cons_succ]

/-! ## The product of the lists -/

/-- The edges at the given positions, one in each list. -/
inductive Selects : List (List EdgeId) → List Nat → List EdgeId → Prop
  | nil : Selects [] [] []
  | cons {choices : List (List EdgeId)} {positions : List Nat}
      {selected edges : List EdgeId}
      {position : Nat} {edge : EdgeId} (found : edges[position]? = some edge)
      (later : Selects choices positions selected) :
      Selects (edges :: choices) (position :: positions) (edge :: selected)

/-- The members of the product with the positions of their edges. -/
def placedProducts : List (List EdgeId) → List (List Nat × List EdgeId)
  | [] => [([], [])]
  | edges :: choices =>
      edges.zipIdx.flatMap fun (edge, position) =>
        (placedProducts choices).map fun (positions, selected) =>
          (position :: positions, edge :: selected)

theorem map_snd_placedProducts (choices : List (List EdgeId)) :
    (placedProducts choices).map Prod.snd = products choices := by
  induction choices with
  | nil => rfl
  | cons edges choices inductionHypothesis =>
      have places :
          products (edges :: choices) = edges.zipIdx.flatMap fun (edge, _) =>
              (products choices).map (edge :: ·) := by
            rw [products]
            conv_lhs => rw [← List.zipIdx_map_fst 0 edges, List.flatMap_map]
      rw [places, placedProducts, List.map_flatMap]
      simp only [List.map_map, ← inductionHypothesis]
      rfl

theorem mem_placedProducts {choices : List (List EdgeId)} {positions : List Nat}
    {selected : List EdgeId} :
    (positions, selected) ∈ placedProducts choices ↔
      Selects choices positions selected := by
  induction choices generalizing positions selected with
  | nil =>
      constructor
      · intro member
        cases List.mem_singleton.mp member
        exact .nil
      · rintro ⟨⟩
        exact List.mem_singleton.mpr rfl
  | cons edges choices inductionHypothesis =>
      simp only [placedProducts, List.mem_flatMap, List.mem_map, Prod.exists,
        Prod.mk.injEq, List.mem_zipIdx_iff_getElem?]
      constructor
      · rintro ⟨edge, position, found, _, _, member, rfl, rfl⟩
        exact .cons found (inductionHypothesis.mp member)
      · rintro (_ | ⟨found, later⟩)
        exact ⟨_, _, found, _, _, inductionHypothesis.mpr later, rfl, rfl⟩

/-- The members come in the order of their positions, the first one counting
most. -/
theorem pairwise_placedProducts (choices : List (List EdgeId)) :
    ((placedProducts choices).map Prod.fst).Pairwise (· < ·) := by
  induction choices with
  | nil => exact List.pairwise_singleton _ _
  | cons edges choices inductionHypothesis =>
      rw [placedProducts, List.map_flatMap, List.pairwise_flatMap]
      refine ⟨fun entry _ => ?_,
        (pairwise_zipIdx edges).imp fun {earlier later} before => ?_⟩
      · rw [List.map_map, List.pairwise_map]
        rw [List.pairwise_map] at inductionHypothesis
        exact inductionHypothesis.imp fun {left right} less =>
          List.cons_lt_cons_iff.mpr (.inr ⟨rfl, less⟩)
      · intro left leftMember right rightMember
        simp only [List.mem_map] at leftMember rightMember
        obtain ⟨_, ⟨⟨_, _⟩, _, rfl⟩, rfl⟩ := leftMember
        obtain ⟨_, ⟨⟨_, _⟩, _, rfl⟩, rfl⟩ := rightMember
        exact List.cons_lt_cons_iff.mpr (.inl before)

/-- Repeated calls give the tuple with each member of the product of the lists
once, in the lexicographic order of the positions, where the position in the
last list varies fastest, and then nothing for ever.  An empty list leaves
nothing to give, and without lists there is one choice, that of no edges. -/
theorem enumerates_product (base : Binding) (choices : List (List EdgeId)) :
    ∃ product : List (List Nat × List EdgeId),
      (product.map Prod.fst).Pairwise (· < ·) ∧
      (∀ positions edges, (positions, edges) ∈ product ↔
        Selects choices positions edges) ∧
      (∀ call, (ofTuple base choices).answer call =
        product[call]?.map fun (_, edges) => { base with edges }) ∧
      ([] ∈ choices → ∀ call, (ofTuple base choices).answer call = none) ∧
      (choices = [] →
        (ofTuple base choices).answer 0 = some { base with edges := [] } ∧
        ∀ call, (ofTuple base choices).answer (call + 1) = none) := by
  have answers (call : Nat) : (ofTuple base choices).answer call =
      (products choices)[call]?.map fun edges => { base with edges } := by
    rw [answer_eq (valid_ofTuple base choices), outstanding_ofTuple]
    rfl
  refine ⟨placedProducts choices, pairwise_placedProducts choices,
    fun _ _ => mem_placedProducts, fun call => ?_, fun empty call => ?_, ?_⟩
  · rw [answers, ← map_snd_placedProducts, List.getElem?_map, Option.map_map]
    rfl
  · rw [answers, products_eq_nil empty]
    rfl
  · rintro rfl
    exact ⟨answers 0, fun call => answers (call + 1)⟩

/-- The last position moves on with each call, the one in the list of a single
edge never. -/
example :
    (List.range 5).map
      (ofTuple ⟨[⟨1⟩, ⟨2⟩], []⟩ [[⟨7⟩, ⟨8⟩], [⟨3⟩], [⟨5⟩, ⟨5⟩]]).answer =
      [some ⟨[⟨1⟩, ⟨2⟩], [⟨7⟩, ⟨3⟩, ⟨5⟩]⟩, some ⟨[⟨1⟩, ⟨2⟩], [⟨7⟩, ⟨3⟩, ⟨5⟩]⟩,
        some ⟨[⟨1⟩, ⟨2⟩], [⟨8⟩, ⟨3⟩, ⟨5⟩]⟩, some ⟨[⟨1⟩, ⟨2⟩], [⟨8⟩, ⟨3⟩, ⟨5⟩]⟩,
        none] := by
  decide

end EdgeChoices

end DeltaGraph
