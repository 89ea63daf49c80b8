import DeltaGraph.Proofs.Pattern.Order
import DeltaGraph.Proofs.Text.ByteOrder
import Mathlib.Data.Prod.Lex

/-!
# The order is greedy

After any start, be it made of variables or not, each variable that is not in it
follows once.  The next one is always the best of those that remain: the one
that is adjacent to most entries of the order so far, then the one of the
largest degree, then the one whose name comes first.  If none is adjacent to the
order, the degree and the name decide.
-/

namespace DeltaGraph

namespace Pattern

/-- The pattern declares the variable, or a relation starts or ends at it. -/
def Mentions (pattern : Pattern) (name : String) : Prop :=
  name ∈ pattern.variableNames ∨
    ∃ relation ∈ pattern.relations, relation.touches name

/-- Whether some relation joins two variables, in either direction. -/
def adjacent (pattern : Pattern) (left right : String) : Bool :=
  pattern.relations.any (·.joins left right)

/-- The number of ends of relations at a variable. -/
def degree (pattern : Pattern) (name : String) : Nat :=
  pattern.relations.countP (·.source == name) +
    pattern.relations.countP (·.target == name)

/-- The number of entries of an order that a variable is adjacent to. -/
def coverage
    (pattern : Pattern)
    (ordered : List String)
    (name : String) : Nat :=
  ordered.countP (pattern.adjacent name)

/-- The variable is not in the order yet. -/
def Remains
    (pattern : Pattern)
    (ordered : List String)
    (name : String) : Prop :=
  pattern.Mentions name ∧ name ∉ ordered

/-- No variable that remains has a larger score, and among those with an equal
score none has a name whose bytes come before. -/
structure Leads {α : Type} [LT α] (pattern : Pattern) (ordered : List String)
    (score : String → α) (name : String) : Prop where
  remains : pattern.Remains ordered name
  first {other : String} (remains : pattern.Remains ordered other)
    (different : other ≠ name) :
    score other < score name ∨
      score other = score name ∧ textBytes name < textBytes other

/-- The greedy rule for the variable that follows an order. -/
structure Follows
    (pattern : Pattern)
    (ordered : List String)
    (name : String) : Prop where
  joined (joined : ∃ other, pattern.Remains ordered other ∧
      ∃ entry ∈ ordered, pattern.adjacent other entry) :
    pattern.Leads ordered
      (fun other =>
        toLex (pattern.coverage ordered other, pattern.degree other)) name
  apart (apart : ¬ ∃ other, pattern.Remains ordered other ∧
      ∃ entry ∈ ordered, pattern.adjacent other entry) :
    pattern.Leads ordered pattern.degree name

end Pattern

namespace Incidence

open Pattern

theorem length_endsOf
    (name : String)
    (relations : List Relation)
    (index : Nat) :
    (endsOf name (relations.zipIdx index)).length =
      relations.countP (·.source == name) +
        relations.countP (·.target == name) := by
  induction relations generalizing index with
  | nil => rfl
  | cons first rest inductionHypothesis =>
      have later := inductionHypothesis (index + 1)
      rw [List.zipIdx_cons, endsOf, List.flatMap_cons, ←
        endsOf, List.length_append, later, List.countP_cons, List.countP_cons]
      by_cases source : first.source = name <;>
          by_cases target : first.target = name <;>
        simp [source, target] <;> omega

theorem any_endsOf
    (name other : String)
    (relations : List Relation)
    (index : Nat) :
    (endsOf name (relations.zipIdx index)).any (·.neighbor == other) =
      relations.any (·.joins name other) := by
  induction relations generalizing index with
  | nil => rfl
  | cons first rest inductionHypothesis =>
      have later := inductionHypothesis (index + 1)
      rw [List.zipIdx_cons, endsOf, List.flatMap_cons, ←
        endsOf, List.any_append, later, List.any_cons, Relation.joins]
      refine congrArg (· || _) (Bool.eq_iff_iff.mpr ?_)
      simp [and_comm]

variable {pattern : Pattern}

/-- A candidate has the coverage and the degree that the relations give it. -/
theorem candidate_ofPattern
    (pattern : Pattern)
    (ordered : List String)
    (name : String) :
    (ofPattern pattern).candidate ordered name =
      ⟨name, pattern.coverage ordered name, pattern.degree name⟩ := by
  simp only [candidate, endsAt_ofPattern, length_endsOf, any_endsOf]
  rfl

theorem mem_names_iff_mentions {name : String} :
    name ∈ (ofPattern pattern).names ↔ pattern.Mentions name := by
  have none : name ∉ (Incidence.mk ∅).names := by simp [names]
  rw [ofPattern, mem_names_foldl, mem_names_foldl_declare, Mentions,
    or_iff_right none]
  refine or_congr_right ⟨?_, ?_⟩
  · rintro ⟨entry, member, touches⟩
    exact ⟨entry.1, List.fst_mem_of_mem_zipIdx member,
      by simpa [Relation.touches] using touches⟩
  · rintro ⟨relation, member, touches⟩
    obtain ⟨index, found⟩ := List.mem_iff_getElem?.mp member
    exact ⟨(relation, index), List.mem_zipIdx_iff_getElem?.mpr found,
      by simpa [Relation.touches] using touches⟩

theorem pairwise_names (incidence : Incidence) :
    incidence.names.Pairwise (· < ·) :=
  Std.ExtTreeMap.ordered_keys.imp compare_lt_iff_lt.mp

namespace Candidate

/-- What candidates are compared by, the name counting the other way round. -/
def key (candidate : Candidate) : ℕ ×ₗ ℕ ×ₗ Stringᵒᵈ :=
  toLex (candidate.coverage,
    toLex (candidate.degree, OrderDual.toDual candidate.name))

/-- Among candidates in the order of their names, one is preferred to an earlier
one if it has the larger key. -/
theorem exceeds_iff
    {candidate earlier : Candidate}
    (before : earlier.name < candidate.name) :
    candidate.exceeds earlier ↔ earlier.key < candidate.key := by
  simp only [exceeds, key, Prod.Lex.toLex_lt_toLex, Bool.or_eq_true,
    Bool.and_eq_true, decide_eq_true_eq, beq_iff_eq, OrderDual.toDual_lt_toDual,
    not_lt_of_gt before, and_false, or_false]
  exact or_congr_right (and_congr_left' eq_comm)

/-- The best of candidates in the order of their names has the largest key. -/
theorem key_le_foldl
    {best : Candidate}
    {rest : List Candidate}
    (sorted :
      (best :: rest).Pairwise fun earlier later => earlier.name < later.name) :
    ∀ candidate ∈ best :: rest, candidate.key ≤
      (rest.foldl (fun best next => if next.exceeds best then next else best)
        best).key := by
  induction rest generalizing best with
  | nil => simp
  | cons next rest inductionHypothesis =>
      obtain ⟨before, later⟩ := List.pairwise_cons.mp sorted
      rw [List.foldl_cons]
      by_cases better : next.exceeds best
      · rw [if_pos better]
        have all := inductionHypothesis later
        refine List.forall_mem_cons.mpr ⟨?_, all⟩
        exact (((exceeds_iff (before next (.head _))).mp better).le).trans
          (all next (.head _))
      · rw [if_neg better]
        have all := inductionHypothesis
          (sorted.sublist (.cons_cons best (List.sublist_cons_self next rest)))
        obtain ⟨first, others⟩ := List.forall_mem_cons.mp all
        have worse :=
          not_lt.mp (mt (exceeds_iff (before next (.head _))).mpr better)
        exact List.forall_mem_cons.mpr
          ⟨first, List.forall_mem_cons.mpr ⟨worse.trans first, others⟩⟩

theorem key_le_of_best?
    {candidates : List Candidate}
    {best : Candidate}
    (sorted :
      candidates.Pairwise fun earlier later => earlier.name < later.name)
    (found : best? candidates = some best) :
    ∀ candidate ∈ candidates, candidate.key ≤ best.key := by
  cases candidates with
  | nil => cases found
  | cons first rest =>
      cases found
      exact key_le_foldl sorted

end Candidate

/-- The next variable has the largest key among those that remain, whether one
of them is adjacent to the order or not. -/
theorem key_le_of_next?
    {incidence : Incidence}
    {ordered remaining : List String}
    {name : String}
    (sorted : remaining.Pairwise (· < ·))
    (next : incidence.next? ordered remaining = some name) :
    ∀ other ∈ remaining,
      (incidence.candidate ordered other).key ≤
        (incidence.candidate ordered name).key := by
  let candidates := remaining.map (incidence.candidate ordered)
  have ascending :
      candidates.Pairwise fun earlier later => earlier.name < later.name :=
    List.pairwise_map.mpr sorted
  have chosen {best : Candidate} (listed : best ∈ candidates)
      (named : best.name = name) :
      best = incidence.candidate ordered name := by
    obtain ⟨other, _, rfl⟩ := List.mem_map.mp listed
    exact congrArg _ named
  intro other member
  have listed : incidence.candidate ordered other ∈ candidates :=
    List.mem_map_of_mem member
  simp only [next?, Option.map_eq_some_iff, Option.orElse_eq_orElse,
    Option.orElse_eq_or, Option.or_eq_some_iff] at next
  obtain ⟨best, covered | ⟨_, found⟩, named⟩ := next
  · obtain ⟨bestListed, positive⟩ :=
      List.mem_filter.mp (Candidate.mem_of_best? covered)
    rw [← chosen bestListed named]
    by_cases joined : (incidence.candidate ordered other).coverage = 0
    · have more :
          (incidence.candidate ordered other).coverage < best.coverage := by
        simp only [ne_eq, decide_eq_true_eq] at positive
        omega
      exact (Prod.Lex.toLex_lt_toLex.mpr (.inl more)).le
    · exact Candidate.key_le_of_best? (ascending.filter _) covered _
        (List.mem_filter.mpr ⟨listed, by simpa using joined⟩)
  · rw [← chosen (Candidate.mem_of_best? found) named]
    exact Candidate.key_le_of_best? ascending found _ listed

/-- What a candidate's key says about its score and its name. -/
theorem score_of_key_le
    {ordered : List String}
    {name other : String}
    (different : other ≠ name)
    (less : ((ofPattern pattern).candidate ordered other).key ≤
      ((ofPattern pattern).candidate ordered name).key) :
    toLex (pattern.coverage ordered other, pattern.degree other) <
        toLex (pattern.coverage ordered name, pattern.degree name) ∨
      toLex (pattern.coverage ordered other, pattern.degree other) =
        toLex (pattern.coverage ordered name, pattern.degree name) ∧
        textBytes name < textBytes other := by
  simp only [candidate_ofPattern, Candidate.key, Prod.Lex.toLex_le_toLex,
    OrderDual.toDual_le_toDual] at less
  simp only [Prod.Lex.toLex_lt_toLex, toLex_inj, Prod.mk.injEq,
    textBytes_lt_iff]
  rcases less with more | ⟨sameCoverage, more | ⟨sameDegree, before⟩⟩
  · exact .inl (.inl more)
  · exact .inl (.inr ⟨sameCoverage, more⟩)
  · exact .inr
      ⟨⟨sameCoverage, sameDegree⟩, lt_of_le_of_ne before different.symm⟩

/-- The next variable follows the greedy rule. -/
theorem follows_of_next? {ordered remaining : List String} {name : String}
    (sorted : remaining.Pairwise (· < ·))
    (all : ∀ other, other ∈ remaining ↔ pattern.Remains ordered other)
    (next : (ofPattern pattern).next? ordered remaining = some name) :
    pattern.Follows ordered name := by
  have remains := (all name).mp (next?_mem next)
  have best := key_le_of_next? sorted next
  constructor
  · intro _
    exact ⟨remains,
      fun left different =>
        score_of_key_le different (best _ ((all _).mpr left))⟩
  · intro apart
    have uncovered {other : String} (left : pattern.Remains ordered other) :
        pattern.coverage ordered other = 0 := by
      by_contra positive
      exact apart
        ⟨other, left, List.countP_pos_iff.mp (Nat.pos_of_ne_zero positive)⟩
    refine ⟨remains, fun {other} left different => ?_⟩
    have ranked := score_of_key_le different (best _ ((all _).mpr left))
    simpa [uncovered left, uncovered remains, Prod.Lex.toLex_lt_toLex]
      using ranked

/-- Extending an order appends the remaining variables, each by the greedy
rule. -/
theorem follows_extendOrder
    {count : Nat}
    {ordered remaining later : List String}
    (size : remaining.length = count)
    (sorted : remaining.Pairwise (· < ·))
    (all : ∀ other, other ∈ remaining ↔ pattern.Remains ordered other)
    (extended : (ofPattern pattern).extendOrder count ordered remaining =
      ordered ++ later)
    {before after : List String}
    {name : String}
    (split : later = before ++ name :: after) :
    pattern.Follows (ordered ++ before) name := by
  induction count generalizing ordered remaining later before with
  | zero =>
      have empty : later = [] :=
        List.append_cancel_left (extended.symm.trans (List.append_nil _).symm)
      rw [empty] at split
      cases before <;> cases split
  | succ count inductionHypothesis =>
      have nonempty : remaining ≠ [] := List.ne_nil_of_length_eq_add_one size
      obtain ⟨first, next⟩ := (ofPattern pattern).exists_next? ordered nonempty
      have member := next?_mem next
      simp only [extendOrder, next] at extended
      obtain ⟨rest, started⟩ :=
        (ofPattern pattern).prefix_extendOrder count (ordered ++ [first])
          (remaining.erase first)
      have continued : later = first :: rest := by
        have same : ordered ++ later = ordered ++ (first :: rest) := by
          rw [← extended, ← started, List.append_assoc]
          rfl
        exact List.append_cancel_left same
      cases before with
      | nil =>
          rw [continued] at split
          cases split
          rw [List.append_nil]
          exact follows_of_next? sorted all next
      | cons head before =>
          rw [continued] at split
          cases split
          have shorter : (remaining.erase first).length = count := by
            rw [List.length_erase_of_mem member]
            omega
          have left (other : String) :
              other ∈ remaining.erase first ↔
                pattern.Remains (ordered ++ [first]) other := by
            rw [List.Nodup.mem_erase_iff (sorted.imp ne_of_lt), all,
              Pattern.Remains, Pattern.Remains, List.mem_append,
              List.mem_singleton, not_or]
            tauto
          have followed :=
            inductionHypothesis shorter (sorted.sublist List.erase_sublist) left
            started.symm rfl
          rwa [List.append_assoc] at followed

/-- An order appends to its start each of the variables that remain. -/
theorem orderAfter_eq_append (incidence : Incidence) (start : List String) :
    ∃ later, incidence.orderAfter start = start ++ later ∧
      later.Perm (incidence.names.filter (!start.contains ·)) := by
  obtain ⟨later, split⟩ := incidence.prefix_orderAfter start
  refine ⟨later, split.symm, (List.perm_append_left_iff start).mp ?_⟩
  rw [split]
  exact incidence.perm_extendOrder _ _

/-- What remains after a start are the variables that are not in it. -/
theorem mem_remaining_iff {start : List String} {name : String} :
    name ∈ (ofPattern pattern).names.filter (!start.contains ·) ↔
      pattern.Remains start name := by
  rw [List.mem_filter, mem_names_iff_mentions, Pattern.Remains]
  simp

/-- Each entry of an order beyond its start follows the greedy rule. -/
theorem follows_orderAfter
    {start later before after : List String}
    {name : String}
    (order : (ofPattern pattern).orderAfter start = start ++ later)
    (split : later = before ++ name :: after) :
    pattern.Follows (start ++ before) name :=
  follows_extendOrder rfl ((pairwise_names _).filter _)
    (fun _ => mem_remaining_iff) order split

end Incidence

namespace Pattern

/-- An order keeps its start, whatever the start lists, and appends each
variable that is not in it once and by the greedy rule. -/
theorem orders_greedily (pattern : Pattern) (start : List String) :
    ∃ later, (Incidence.ofPattern pattern).orderAfter start = start ++ later ∧
      later.Nodup ∧ (∀ name, name ∈ later ↔ pattern.Remains start name) ∧
        ∀ before name after, later = before ++ name :: after →
          pattern.Follows (start ++ before) name := by
  obtain ⟨later, order, permuted⟩ :=
    (Incidence.ofPattern pattern).orderAfter_eq_append start
  refine ⟨later, order, ?_, ?_, ?_⟩
  · exact permuted.nodup_iff.mpr ((Incidence.nodup_names _).filter _)
  · intro name
    rw [permuted.mem_iff, Incidence.mem_remaining_iff]
  · intro before name after split
    exact Incidence.follows_orderAfter order split

/-- A path of two relations, with a relation from one of its ends to itself. -/
def loopedPath : Pattern where
  relations :=
    [⟨"a", "b", none, none⟩, ⟨"c", "b", none, none⟩, ⟨"a", "a", none, none⟩]

/-- The start may repeat a variable and list a name that is none. -/
theorem orders_greedily_loopedPath :
    ∃ later, (Incidence.ofPattern loopedPath).orderAfter ["z", "b", "b"] =
        ["z", "b", "b"] ++ later ∧
      later = ["a"] ++ "c" :: [] ∧
      loopedPath.Follows (["z", "b", "b"] ++ ["a"]) "c" := by
  obtain ⟨later, order, -, -, greedy⟩ :=
    orders_greedily loopedPath ["z", "b", "b"]
  have appended : later = ["a"] ++ "c" :: [] :=
    List.append_cancel_left (order.symm.trans (by decide))
  exact ⟨later, order, appended, greedy ["a"] "c" [] appended⟩

end Pattern

end DeltaGraph
