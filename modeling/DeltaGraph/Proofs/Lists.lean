import Mathlib.Data.List.Forall2
import Mathlib.Data.List.Nodup

/-!
# Lists

What two lists related member by member have in common, and where a member of a
list is found first.
-/

namespace DeltaGraph

section

variable {α β : Type} {Relation : α → β → Prop} {left : List α} {right : List β}

/-- An item on the right of two lists that match has its partner on the left. -/
theorem exists_left_of_forall₂
    (related : List.Forall₂ Relation left right)
    {item : β}
    (member : item ∈ right) :
    ∃ other ∈ left, Relation other item := by
  induction related with
  | nil => cases member
  | cons first _ inductionHypothesis =>
      rcases List.mem_cons.mp member with rfl | later
      · exact ⟨_, .head _, first⟩
      · obtain ⟨other, found, holds⟩ := inductionHypothesis later
        exact ⟨other, .tail _ found, holds⟩

/-- An item on the left of two lists that match has its partner on the right. -/
theorem exists_right_of_forall₂
    (related : List.Forall₂ Relation left right)
    {item : α}
    (member : item ∈ left) :
    ∃ other ∈ right, Relation item other := by
  obtain ⟨other, found, holds⟩ := exists_left_of_forall₂ related.flip member
  exact ⟨other, found, holds⟩

/-- Lists that match have one image under functions that agree on partners. -/
theorem map_eq_map_of_forall₂ {γ : Type} {first : α → γ} {second : β → γ}
    (related : List.Forall₂ Relation left right)
    (same : ∀ item other, Relation item other → second other = first item) :
    right.map second = left.map first := by
  induction related with
  | nil => rfl
  | cons here _ inductionHypothesis =>
      rw [List.map_cons, List.map_cons, same _ _ here, inductionHypothesis]

/-- Related lists are related to a third one alike if their members are. -/
theorem forall₂_congr_of_related
    {γ : Type}
    {first : α → γ → Prop}
    {second : β → γ → Prop}
    (related : List.Forall₂ Relation left right)
    (same : ∀ item other, Relation item other → ∀ third, first item third ↔
      second other third)
    (others : List γ) :
    List.Forall₂ first left others ↔ List.Forall₂ second right others := by
  induction related generalizing others with
  | nil => simp
  | cons here _ inductionHypothesis =>
      cases others with
      | nil => simp
      | cons third others =>
          rw [List.forall₂_cons, List.forall₂_cons, same _ _ here,
            inductionHypothesis]

/-- Lists are related member by member if the members at each position are. -/
theorem forall₂_of_getElem?
    (length : left.length = right.length)
    (each : ∀ (index : Nat) item other, left[index]? = some item →
      right[index]? = some other → Relation item other) :
    List.Forall₂ Relation left right :=
  List.forall₂_iff_get.mpr ⟨length, fun index inLeft inRight =>
    each index _ _ (List.getElem?_eq_getElem inLeft)
      (List.getElem?_eq_getElem inRight)⟩

/-- Partners in two lists that match stand at the same place. -/
theorem exists_getElem?_of_forall₂
    (related : List.Forall₂ Relation left right)
    {index : Nat}
    {item : α}
    (found : left[index]? = some item) :
    ∃ other, right[index]? = some other ∧ Relation item other := by
  obtain ⟨inLeft, rfl⟩ := List.getElem?_eq_some_iff.mp found
  obtain ⟨length, each⟩ := List.forall₂_iff_get.mp related
  exact ⟨_, List.getElem?_eq_getElem (length ▸ inLeft),
    each index inLeft (length ▸ inLeft)⟩

end

theorem getElem?_take_eq_some
    {α : Type}
    {items : List α}
    {count place : Nat}
    {item : α} :
    (items.take count)[place]? = some item ↔
      place < count ∧ items[place]? = some item := by
  rw [List.getElem?_take]
  split <;> simp [*]

/-- A place in a list with one more item is an earlier place or the last one. -/
theorem getElem?_concat_eq_some
    {α : Type}
    {items : List α}
    {last item : α}
    {place : Nat}
    (found : (items ++ [last])[place]? = some item) :
    place < items.length ∧ items[place]? = some item ∨
      place = items.length ∧ item = last := by
  rcases Nat.lt_trichotomy place items.length with inside | rfl | outside
  · rw [List.getElem?_append_left inside] at found
    exact .inl ⟨inside, found⟩
  · rw [List.getElem?_concat_length] at found
    exact .inr ⟨rfl, (Option.some.inj found).symm⟩
  · have present := (List.getElem?_eq_some_iff.mp found).1
    rw [List.length_append, List.length_singleton] at present
    omega

/-- The members of a list come with their places in ascending order. -/
theorem pairwise_zipIdx {α : Type} (items : List α) :
    items.zipIdx.Pairwise fun earlier later => earlier.2 < later.2 := by
  rw [← List.pairwise_map (f := Prod.snd), List.zipIdx_map_snd]
  exact List.pairwise_lt_range'

section

variable {names : List String} {name : String} {place : Nat}

/-- A name stands at the place where it is found. -/
theorem getElem?_of_idxOf? (found : names.idxOf? name = some place) :
    names[place]? = some name := by
  obtain ⟨below, same, _⟩ := List.findIdx?_eq_some_iff_getElem.mp found
  rw [List.getElem?_eq_getElem below]
  exact congrArg some (by simpa using same)

theorem exists_idxOf? (member : name ∈ names) :
    ∃ place, names.idxOf? name = some place := by
  cases found : names.idxOf? name with
  | none => exact absurd member (List.idxOf?_eq_none_iff.mp found)
  | some place => exact ⟨place, rfl⟩

/-- A name found in a list is found at the same place when the list grows. -/
theorem idxOf?_append
    (found : names.idxOf? name = some place)
    (more : List String) :
    (names ++ more).idxOf? name = some place := by
  rw [List.idxOf?, List.findIdx?_append]
  have same : names.findIdx? (· == name) = some place := found
  rw [same]
  rfl

theorem idxOf?_append_new (new : names.idxOf? name = none) :
    (names ++ [name]).idxOf? name = some names.length := by
  have missing : names.findIdx? (· == name) = none := new
  rw [List.idxOf?, List.findIdx?_append, missing]
  simp

theorem idxOf?_append_other {other : String} (different : other ≠ name) :
    (names ++ [name]).idxOf? other = names.idxOf? other := by
  cases found : names.idxOf? other with
  | some place => exact idxOf?_append found [name]
  | none =>
      rw [List.idxOf?_eq_none_iff] at found ⊢
      rw [List.mem_append, List.mem_singleton, not_or]
      exact ⟨found, different⟩

end

/-! ## Lists that pass a test up to some member -/

section

variable {α : Type} {test : α → Bool} {items : List α}

/-- A test that holds of the members before each one that passes it holds of
the first members only. -/
theorem filter_append_filter_not (falling : items.Pairwise fun item later =>
    test later = true → test item = true) :
    items.filter test ++ items.filter (!test ·) = items := by
  induction items with
  | nil => rfl
  | cons first rest inductionHypothesis =>
      obtain ⟨earlier, restFalling⟩ := List.pairwise_cons.mp falling
      cases pass : test first with
      | true => simp [pass, inductionHypothesis restFalling]
      | false =>
          have fails : ∀ item ∈ rest, test item = false :=
            fun item member => Bool.eq_false_iff.mpr fun passes => by
              rw [earlier item member passes] at pass
              cases pass
          have none : rest.filter test = [] :=
            List.filter_eq_nil_iff.mpr fun item member => by
              simp [fails item member]
          have all : rest.filter (!test ·) = rest :=
            List.filter_eq_self.mpr fun item member => by
              simp [fails item member]
          simp [pass, none, all]

end

/-! ## Repetitions -/

section

variable {α : Type} [BEq α]

theorem eraseRepsBy_loop (first : α) (rest kept : List α) :
    List.eraseRepsBy.loop (· == ·) first rest kept =
      kept.reverse ++ (first :: rest).eraseReps := by
  have shift (first : α) (rest kept : List α) :
      List.eraseRepsBy.loop (· == ·) first rest kept =
        kept.reverse ++ List.eraseRepsBy.loop (· == ·) first rest [] := by
    induction rest generalizing first kept with
    | nil => simp [List.eraseRepsBy.loop]
    | cons second rest inductionHypothesis =>
        simp only [List.eraseRepsBy.loop]
        split
        · exact inductionHypothesis first kept
        · rw [inductionHypothesis second (first :: kept),
            inductionHypothesis second [first]]
          simp
  exact shift first rest kept

variable [LawfulBEq α]

/-- The first of two equal neighbors stands for both. -/
theorem eraseReps_cons_cons (first second : α) (rest : List α) :
    (first :: second :: rest).eraseReps =
      if first == second then (second :: rest).eraseReps
      else first :: (second :: rest).eraseReps := by
  change List.eraseRepsBy.loop (· == ·) first (second :: rest) [] = _
  rw [List.eraseRepsBy.loop]
  cases same : first == second with
  | true =>
      cases eq_of_beq same
      rfl
  | false => exact eraseRepsBy_loop second rest [first]

/-- Dropping repetitions keeps every item. -/
@[simp] theorem mem_eraseReps {item : α} {items : List α} :
    item ∈ items.eraseReps ↔ item ∈ items := by
  induction items with
  | nil => rfl
  | cons first rest inductionHypothesis =>
      cases rest with
      | nil => rfl
      | cons second rest =>
          rw [eraseReps_cons_cons]
          split
          · rename_i same
            cases eq_of_beq same
            rw [inductionHypothesis]
            simp
          · rw [List.mem_cons, inductionHypothesis]
            exact List.mem_cons.symm

end

end DeltaGraph
