import DeltaGraph.Pattern.Draft
import DeltaGraph.Proofs.Pattern.Names
import Mathlib.Data.List.Infix
import Mathlib.Data.List.Induction

/-!
# What a draft records

The endpoints of the declared relations are read in the order of the calls, the
source of a relation before its target.  If they agree on the types of the
variables, the draft holds what was declared, and it is finished if no rule is
broken.  Otherwise the first endpoint that disagrees with an earlier one decides
what the draft comes to, whatever is declared after it.
-/

namespace DeltaGraph

namespace Declaration

/-- The endpoints that a declaration mentions, the source first. -/
def endpoints : Declaration → List Endpoint
  | .relation source target _ _ => [source, target]
  | .predicate _ => []

/-- The relation that a declaration adds. -/
def relation? : Declaration → Option Relation
  | .relation source target type name =>
      some ⟨source.name, target.name, type, name⟩
  | .predicate _ => none

/-- The predicate that a declaration adds. -/
def predicate? : Declaration → Option Predicate
  | .relation .. => none
  | .predicate added => some added

end Declaration

/-! ## Endpoints that agree -/

namespace Endpoint

/-- No variable is mentioned with two types. -/
def Agree (mentions : List Endpoint) : Prop :=
  ∀ name first second,
    ⟨name, some first⟩ ∈ mentions → ⟨name, some second⟩ ∈ mentions →
      first = second

/-- The fault is about the first endpoint whose type is not the type that an
endpoint before it gives to the variable. -/
def FirstConflict (mentions : List Endpoint) (fault : PlanFault) : Prop :=
  ∃ before name earlier later after,
    mentions = before ++ ⟨name, some later⟩ :: after ∧ Agree before ∧
      ⟨name, some earlier⟩ ∈ before ∧ earlier ≠ later ∧
      fault = .conflictingTypes name earlier later

/-- Mentions that agree agree as far as they have been read. -/
theorem Agree.of_prefix {mentions whole : List Endpoint} (agree : Agree whole)
    (start : mentions <+: whole) : Agree mentions :=
  fun name first second firstMember secondMember =>
    agree name first second (start.subset firstMember)
      (start.subset secondMember)

/-- The endpoints up to the first conflict do not agree. -/
theorem not_agree_of_conflict
    {before : List Endpoint}
    {name earlier later : String}
    (member : ⟨name, some earlier⟩ ∈ before)
    (different : earlier ≠ later) :
    ¬ Agree (before ++ [⟨name, some later⟩]) := fun agree =>
  different (agree name earlier later (List.mem_append_left _ member)
    (List.mem_append_right _ (.head _)))

/-- A conflict is one that cannot be put right by what follows. -/
theorem FirstConflict.not_agree {mentions : List Endpoint} {fault : PlanFault}
    (conflict : FirstConflict mentions fault) : ¬ Agree mentions := by
  obtain ⟨before, name, earlier, later, after, rfl, _, member, different, _⟩ :=
    conflict
  refine fun agree =>
    not_agree_of_conflict member different (agree.of_prefix ⟨after, ?_⟩)
  rw [List.append_assoc, List.singleton_append]

/-- What is mentioned after the first conflict does not matter. -/
theorem FirstConflict.append {mentions : List Endpoint} {fault : PlanFault}
    (conflict : FirstConflict mentions fault) (more : List Endpoint) :
    FirstConflict (mentions ++ more) fault := by
  obtain ⟨before, name, earlier, later, after, rfl, rest⟩ := conflict
  exact ⟨before, name, earlier, later, after ++ more, by simp, rest⟩

/-- Endpoints that agree do not reach as far as the first conflict. -/
theorem eq_nil_of_agree
    {before more after rest : List Endpoint}
    {name earlier later : String}
    (agree : Agree (before ++ more))
    (member : ⟨name, some earlier⟩ ∈ before)
    (different : earlier ≠ later)
    (split : ⟨name, some later⟩ :: after = more ++ rest) :
    more = [] := by
  cases more with
  | nil => rfl
  | cons next others =>
      cases split
      refine absurd (agree.of_prefix ⟨others, ?_⟩)
        (not_agree_of_conflict member different)
      rw [List.append_assoc, List.singleton_append]

/-- There is only one first conflict. -/
theorem FirstConflict.unique
    {mentions : List Endpoint}
    {first second : PlanFault}
    (conflict : FirstConflict mentions first)
    (other : FirstConflict mentions second) :
    first = second := by
  obtain ⟨before, name, earlier, later, after, split, agree, member, different,
      rfl⟩ := conflict
  obtain ⟨otherBefore, otherName, otherEarlier, otherLater, otherAfter, rfl,
    otherAgree, otherMember, otherDifferent, rfl⟩ := other
  have same : otherBefore = before := by
    rcases List.append_eq_append_iff.mp split
      with ⟨more, rfl, rest⟩ | ⟨more, rfl, rest⟩
    · rw [eq_nil_of_agree agree otherMember otherDifferent rest,
        List.append_nil]
    · rw [eq_nil_of_agree otherAgree member different rest, List.append_nil]
  subst same
  cases List.append_cancel_left split
  rw [agree name earlier otherEarlier member otherMember]

end Endpoint

namespace Draft

/-! ## Variables -/

/-- The variables are those that are mentioned, in the order of their first
mention, and have the types that are mentioned. -/
structure Describes
    (mentions : List Endpoint)
    (declared : List PatternVariable) : Prop where
  names :
    declared.map PatternVariable.name = (mentions.map Endpoint.name).eraseDups
  different : (declared.map PatternVariable.name).Nodup
  types : ∀ entry ∈ declared, ∀ type,
    entry.type = some type ↔ ⟨entry.name, some type⟩ ∈ mentions

section

variable {mentions : List Endpoint} {declared later : List PatternVariable}
  {endpoint : Endpoint}

theorem mem_mentions_concat {name type : String} :
    ⟨name, some type⟩ ∈ mentions ++ [endpoint] ↔
      ⟨name, some type⟩ ∈ mentions ∨
        name = endpoint.name ∧ endpoint.type = some type := by
  obtain ⟨other, given⟩ := endpoint
  rw [List.mem_append, List.mem_singleton, Endpoint.mk.injEq,
    eq_comm (a := some type)]

/-- The variables are those that are mentioned. -/
theorem Describes.mem_names
    (describes : Describes mentions declared)
    {name : String} :
    name ∈ declared.map PatternVariable.name ↔
      name ∈ mentions.map Endpoint.name := by
  rw [describes.names, List.mem_eraseDups]

/-- Variables whose types are the mentioned ones are mentioned with one type
each. -/
theorem Describes.agree (describes : Describes mentions declared) :
    Endpoint.Agree mentions := by
  intro name first second firstMember secondMember
  have mentioned : name ∈ mentions.map Endpoint.name :=
    List.mem_map_of_mem firstMember
  obtain ⟨entry, member, rfl⟩ :=
    List.mem_map.mp (describes.mem_names.mpr mentioned)
  have typed := (describes.types entry member first).mpr firstMember
  rw [(describes.types entry member second).mpr secondMember] at typed
  exact (Option.some.inj typed).symm

/-- A name is added to the names without repetition if it is new. -/
theorem eraseDups_concat (names : List String) (name : String) :
    (names ++ [name]).eraseDups =
      if name ∈ names then names.eraseDups else names.eraseDups ++ [name] := by
  rw [List.eraseDups_append]
  split <;> rename_i member <;>
    simp [List.removeAll, List.eraseDups_cons, member]

/-- The variables are still described after one more endpoint that is in no
conflict. -/
theorem Describes.declareVariable (describes : Describes mentions declared)
    (declares : Pattern.declareVariable endpoint declared = .ok later) :
    Describes (mentions ++ [endpoint]) later where
  names := by
    rw [List.map_append, List.map_singleton, eraseDups_concat, ←
      describes.names]
    rcases Pattern.exists_of_declareVariable declares with
      ⟨fresh, rfl⟩ | ⟨before, type, after, rfl, _, rfl⟩
    · rw [if_neg (mt describes.mem_names.mpr fresh), List.map_append,
        List.map_singleton]
    · have known : endpoint.name ∈ mentions.map Endpoint.name :=
        describes.mem_names.mp (by simp)
      rw [if_pos known, List.map_append, List.map_append, List.map_cons,
        List.map_cons]
  different := Pattern.nodup_declareVariable describes.different declares
  types := by
    intro entry member type
    rw [mem_mentions_concat]
    rcases Pattern.exists_of_declareVariable declares with
      ⟨fresh, rfl⟩ | ⟨before, earlier, after, rfl, agree, rfl⟩
    · rcases List.mem_append.mp member with old | new
      · have other : entry.name ≠ endpoint.name := fun same =>
          fresh (List.mem_map.mpr ⟨entry, old, same⟩)
        simp [describes.types entry old, other]
      · cases List.mem_singleton.mp new
        have unmentioned : ⟨endpoint.name, some type⟩ ∉ mentions :=
          fun mentioned =>
            fresh (describes.mem_names.mpr
              (List.mem_map.mpr ⟨_, mentioned, rfl⟩))
        simp [unmentioned]
    · -- Only the entry that is found changes, and no other entry has its name.
      have different := describes.different
      rw [List.map_append, List.map_cons, List.nodup_middle, List.nodup_cons,
        ← List.map_append] at different
      rcases List.mem_cons.mp (List.perm_middle.mem_iff.mp member)
        with rfl | old
      · have known := describes.types ⟨endpoint.name, earlier⟩ (by simp) type
        rw [← known]
        cases earlier with
        | none => simp
        | some first => simpa using fun given => agree first rfl type given
      · have other : entry.name ≠ endpoint.name := fun same =>
          different.1 (List.mem_map.mpr ⟨entry, old, same⟩)
        have kept := describes.types entry
          (List.perm_middle.mem_iff.mpr (List.mem_cons_of_mem _ old)) type
        simp [kept, other]

/-- An endpoint that is in conflict with a described variable is the first that
is in conflict. -/
theorem Describes.firstConflict
    (describes : Describes mentions declared)
    {fault : PlanFault}
    (fails : Pattern.declareVariable endpoint declared = .error fault) :
    Endpoint.FirstConflict (mentions ++ [endpoint]) fault := by
  obtain ⟨earlier, later, member, given, different, rfl⟩ :=
    Pattern.exists_of_declareVariable_error fails
  obtain ⟨name, type⟩ := endpoint
  cases given
  exact ⟨mentions, name, earlier, later, [], rfl, describes.agree,
    (describes.types _ member earlier).mp rfl, different, rfl⟩

end

/-! ## Mentions -/

/-- Without a fault the draft has the variables that are mentioned, and a fault
is that of the first conflict. -/
structure Reads (mentions : List Endpoint) (draft : Draft) : Prop where
  describes : draft.fault? = none → Describes mentions draft.pattern.declared
  conflict : ∀ fault, draft.fault? = some fault →
    Endpoint.FirstConflict mentions fault

section

variable {mentions : List Endpoint} {draft : Draft}

@[simp] theorem mention_relations (draft : Draft) (endpoint : Endpoint) :
    (draft.mention endpoint).pattern.relations = draft.pattern.relations := by
  fun_cases mention <;> rfl

@[simp] theorem mention_predicates (draft : Draft) (endpoint : Endpoint) :
    (draft.mention endpoint).pattern.predicates = draft.pattern.predicates := by
  fun_cases mention <;> rfl

/-- A draft with a fault takes no further notice of what is mentioned. -/
theorem mention_of_fault {endpoint : Endpoint} {fault : PlanFault}
    (faulty : draft.fault? = some fault) : draft.mention endpoint = draft := by
  rw [mention, faulty]

/-- A fault that is not there after a mention was not there before it. -/
theorem faultless_of_mention
    {endpoint : Endpoint}
    (faultless : (draft.mention endpoint).fault? = none) :
    draft.fault? = none := by
  cases faulty : draft.fault? with
  | none => rfl
  | some fault =>
      rw [mention_of_fault faulty, faulty] at faultless
      cases faultless

theorem declare_of_fault
    {declaration : Declaration}
    {fault : PlanFault}
    (faulty : draft.fault? = some fault) :
    draft.declare declaration = draft := by
  cases declaration with
  | relation source target type name =>
      simp only [declare, mention_of_fault faulty, faulty]
  | predicate added => simp only [declare, faulty]

theorem Reads.of_faultless
    (faultless : draft.fault? = none)
    (describes : Describes mentions draft.pattern.declared) :
    Reads mentions draft := by
  refine ⟨fun _ => describes, fun fault faulty => ?_⟩
  rw [faultless] at faulty
  cases faulty

theorem Reads.of_fault
    {fault : PlanFault}
    (faulty : draft.fault? = some fault)
    (conflict : Endpoint.FirstConflict mentions fault) :
    Reads mentions draft := by
  constructor
  · intro faultless
    rw [faulty] at faultless
    cases faultless
  · intro found same
    cases Option.some.inj (faulty.symm.trans same)
    exact conflict

/-- Mentioning one more endpoint reads one more mention. -/
theorem Reads.mention (reads : Reads mentions draft) (endpoint : Endpoint) :
    Reads (mentions ++ [endpoint]) (draft.mention endpoint) := by
  cases faulty : draft.fault? with
  | some fault =>
      rw [mention_of_fault faulty]
      exact .of_fault faulty ((reads.conflict fault faulty).append [endpoint])
  | none =>
      have describes := reads.describes faulty
      rw [Draft.mention, faulty]
      cases declares :
        Pattern.declareVariable endpoint draft.pattern.declared with
      | ok later => exact .of_faultless rfl (describes.declareVariable declares)
      | error fault => exact .of_fault rfl (describes.firstConflict declares)

end

/-! ## Declarations -/

/-- The endpoints that declarations mention, in the order of the calls. -/
def mentions (declarations : List Declaration) : List Endpoint :=
  declarations.flatMap Declaration.endpoints

theorem mentions_concat
    (declarations : List Declaration)
    (declaration : Declaration) :
    mentions (declarations ++ [declaration]) =
      mentions declarations ++ declaration.endpoints := by
  rw [mentions, List.flatMap_append, List.flatMap_singleton, mentions]

/-- What holds of the draft after declarations. -/
structure Keeps (declarations : List Declaration) (draft : Draft) : Prop where
  reads : Reads (mentions declarations) draft
  relations : draft.fault? = none →
    draft.pattern.relations = declarations.filterMap Declaration.relation?
  predicates : draft.fault? = none →
    draft.pattern.predicates = declarations.filterMap Declaration.predicate?

theorem Keeps.of_fault
    {declarations : List Declaration}
    {draft : Draft}
    {fault : PlanFault}
    (faulty : draft.fault? = some fault)
    (conflict : Endpoint.FirstConflict (mentions declarations) fault) :
    Keeps declarations draft := by
  have never : draft.fault? ≠ none := by simp [faulty]
  exact ⟨.of_fault faulty conflict, fun faultless => absurd faultless never,
    fun faultless => absurd faultless never⟩

/-- One more declaration is kept beside those before it, or is passed over
because of a fault. -/
theorem Keeps.declare {declarations : List Declaration} {draft : Draft}
    (keeps : Keeps declarations draft) (declaration : Declaration) :
    Keeps (declarations ++ [declaration]) (draft.declare declaration) := by
  have mentioned := mentions_concat declarations declaration
  cases declaration with
  | relation source target type name =>
      have reads := (keeps.reads.mention source).mention target
      rw [List.append_assoc, List.singleton_append] at reads
      simp only [Draft.declare]
      cases faulty : ((draft.mention source).mention target).fault? with
      | some fault =>
          exact .of_fault faulty (mentioned ▸ reads.conflict fault faulty)
      | none =>
          have before := faultless_of_mention (faultless_of_mention faulty)
          have described := reads.describes faulty
          refine ⟨.of_faultless rfl (mentioned ▸ described), fun _ => ?_,
            fun _ => ?_⟩
          · simp [keeps.relations before, Declaration.relation?]
          · simp [keeps.predicates before, Declaration.predicate?]
  | predicate added =>
      rw [Declaration.endpoints, List.append_nil] at mentioned
      simp only [Draft.declare]
      cases faulty : draft.fault? with
      | some fault =>
          exact .of_fault faulty (mentioned ▸ keeps.reads.conflict fault faulty)
      | none =>
          have described := keeps.reads.describes faulty
          refine ⟨.of_faultless rfl (mentioned ▸ described), fun _ => ?_,
            fun _ => ?_⟩
          · simp [keeps.relations faulty, Declaration.relation?]
          · simp [keeps.predicates faulty, Declaration.predicate?]

/-- A draft keeps the declarations that it was made of. -/
theorem keeps_ofDeclarations (declarations : List Declaration) :
    Keeps declarations (ofDeclarations declarations) := by
  -- The calls are folded from the left, so the induction adds a call at the
  -- end.
  induction declarations using List.reverseRecOn with
  | nil =>
      have described : Describes [] [] :=
        ⟨rfl, List.nodup_nil, fun _ member => absurd member List.not_mem_nil⟩
      exact ⟨.of_faultless rfl described, fun _ => rfl, fun _ => rfl⟩
  | append_singleton declarations declaration inductionHypothesis =>
      rw [ofDeclarations, List.foldl_append]
      exact inductionHypothesis.declare declaration

/-! ## Declaring without a draft -/

theorem outcome_of_fault
    {draft : Draft}
    {fault : PlanFault}
    (faulty : draft.fault? = some fault) :
    draft.outcome = .error fault := by
  rw [outcome, faulty]

/-- A draft comes to what the pattern comes to that is declared until a fault is
found. -/
theorem outcome_declare (draft : Draft) (declaration : Declaration) :
    (draft.declare declaration).outcome = draft.outcome >>=
      (·.declare declaration) := by
  cases faulty : draft.fault? with
  | some fault =>
      rw [declare_of_fault faulty, outcome_of_fault faulty]
      rfl
  | none =>
      obtain ⟨pattern, _⟩ := draft
      cases faulty
      cases declaration with
      | predicate added => rfl
      | relation source target type name =>
          simp only [outcome, declare, mention, Pattern.declare, bind,
            Except.bind]
          cases first : Pattern.declareVariable source pattern.declared with
          | error fault => rfl
          | ok middle =>
              simp only
              cases second : Pattern.declareVariable target middle with
              | error fault => rfl
              | ok later => rfl

/-- Declaring one thing after another gives a pattern or the first fault, as a
pattern that is declared step by step does. -/
theorem outcome_foldl (declarations : List Declaration) (draft : Draft) :
    (declarations.foldl declare draft).outcome =
      draft.outcome >>=
        fun pattern => declarations.foldlM Pattern.declare pattern := by
  induction declarations generalizing draft with
  | nil =>
      cases faulty : draft.outcome with
      | error fault => exact faulty
      | ok pattern => exact faulty
  | cons first rest inductionHypothesis =>
      rw [List.foldl_cons, inductionHypothesis, outcome_declare]
      simp only [List.foldlM_cons, bind_assoc]

/-- A finished draft is the pattern that is declared until a fault is found. -/
theorem build_ofDeclarations (declarations : List Declaration) :
    (ofDeclarations declarations).build =
      Pattern.ofDeclarations declarations := by
  rw [build, ofDeclarations, outcome_foldl]
  rfl

/-! ## Finishing -/

section

variable {declarations : List Declaration} {draft : Draft} {fault : PlanFault}

/-- A draft has no fault exactly if all mentions agree on the types. -/
theorem Keeps.fault?_eq_none_iff (keeps : Keeps declarations draft) :
    draft.fault? = none ↔ Endpoint.Agree (mentions declarations) := by
  constructor
  · exact fun faultless => (keeps.reads.describes faultless).agree
  · intro agree
    cases faulty : draft.fault? with
    | none => rfl
    | some fault =>
        exact absurd agree (keeps.reads.conflict fault faulty).not_agree

/-- The fault of a draft is the first conflict between its mentions. -/
theorem Keeps.fault?_eq_some_iff (keeps : Keeps declarations draft) :
    draft.fault? = some fault ↔
      Endpoint.FirstConflict (mentions declarations) fault := by
  constructor
  · exact keeps.reads.conflict fault
  · intro conflict
    cases faulty : draft.fault? with
    | none =>
        exact absurd (keeps.fault?_eq_none_iff.mp faulty) conflict.not_agree
    | some found => rw [(keeps.reads.conflict found faulty).unique conflict]

theorem build_of_fault (faulty : draft.fault? = some fault) :
    draft.build = .error fault := by
  rw [build, outcome_of_fault faulty]
  rfl

/-- A draft without a fault builds its pattern, if it is valid. -/
theorem build_of_faultless (faultless : draft.fault? = none) :
    draft.build = draft.pattern.validate.map fun _ => draft.pattern := by
  rw [build, outcome, faultless]
  rfl

end

/-- The draft comes to what was declared, or to the first conflict. -/
structure Settles (declarations : List Declaration) (draft : Draft) : Prop where
  /-- If a variable is mentioned with two types, there is a first conflict. -/
  conflicts : ¬ Endpoint.Agree (mentions declarations) →
    ∃ fault, Endpoint.FirstConflict (mentions declarations) fault
  /-- The first conflict is returned, whatever else is declared. -/
  reports : ∀ fault, Endpoint.FirstConflict (mentions declarations) fault →
    draft.build = .error fault
  /-- Without a conflict the relations are those of the calls, in their
  order. -/
  relations : Endpoint.Agree (mentions declarations) →
    draft.pattern.relations = declarations.filterMap Declaration.relation?
  /-- Without a conflict the predicates are those of the calls, in their
  order. -/
  predicates : Endpoint.Agree (mentions declarations) →
    draft.pattern.predicates = declarations.filterMap Declaration.predicate?
  /-- Without a conflict the variables are those that are mentioned, with their
  types. -/
  describes : Endpoint.Agree (mentions declarations) →
    Describes (mentions declarations) draft.pattern.declared
  /-- Without a conflict the pattern is returned if it breaks no rule, and only
  then. -/
  accepts : Endpoint.Agree (mentions declarations) →
    (draft.build = .ok draft.pattern ↔ draft.pattern.validate = .ok ())
  /-- Without a conflict the first rule that the pattern breaks is returned. -/
  refuses : Endpoint.Agree (mentions declarations) →
    ∀ fault, draft.pattern.validate = .error fault → draft.build = .error fault
  /-- Nothing else comes of declarations that stop at the first conflict. -/
  stops : draft.build = Pattern.ofDeclarations declarations

/-- Declarations are recorded as they are made, or the first conflict is. -/
theorem settles_declarations (declarations : List Declaration) :
    Settles declarations (ofDeclarations declarations) := by
  have keeps := keeps_ofDeclarations declarations
  have finished := build_ofDeclarations declarations
  generalize ofDeclarations declarations = draft at keeps finished ⊢
  have faultless := fun agree => keeps.fault?_eq_none_iff.mpr agree
  exact {
    conflicts := by
      intro disagree
      obtain ⟨fault, faulty⟩ :=
        Option.ne_none_iff_exists'.mp (mt keeps.fault?_eq_none_iff.mp disagree)
      exact ⟨fault, keeps.fault?_eq_some_iff.mp faulty⟩
    reports :=
      fun fault conflict =>
        build_of_fault (keeps.fault?_eq_some_iff.mpr conflict)
    relations := fun agree => keeps.relations (faultless agree)
    predicates := fun agree => keeps.predicates (faultless agree)
    describes := fun agree => keeps.reads.describes (faultless agree)
    accepts := by
      intro agree
      rw [build_of_faultless (faultless agree)]
      cases draft.pattern.validate <;> simp [Except.map]
    refuses := by
      intro agree fault broken
      rw [build_of_faultless (faultless agree), broken]
      rfl
    stops := finished }

/-- The source of the relation whose target is in conflict stays declared, and
what is declared afterwards is ignored. -/
example :
    let draft := ofDeclarations [
      .relation ⟨"a", none⟩ ⟨"b", none⟩ none none,
      .relation ⟨"c", none⟩ ⟨"a", some "Person"⟩ none none,
      .relation ⟨"d", none⟩ ⟨"a", some "City"⟩ none none,
      .relation ⟨"b", some "City"⟩ ⟨"b", some "Person"⟩ none none]
    draft.pattern.variableNames = ["a", "b", "c", "d"] ∧
      draft.pattern.relations.length = 2 ∧
      draft.build = .error (.conflictingTypes "a" "Person" "City") := by
  decide

end Draft

end DeltaGraph
