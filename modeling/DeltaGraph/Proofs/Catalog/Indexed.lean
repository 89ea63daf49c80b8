import DeltaGraph.Catalog.Indexed
import DeltaGraph.Proofs.Catalog.Calls
import Mathlib.Algebra.Group.Nat.Defs

/-!
# Runs of an indexed catalog

An indexed catalog answers every run of calls like the plain one, as long as the
numbers fit in words of 32 bits: the index and the vector of a dictionary are
changed by one insertion, so that neither loses what the other holds.
-/

namespace DeltaGraph

namespace IndexedDictionary

/-- The index and the vector both hold the names of a plain dictionary. -/
structure Represents
    (indexed : IndexedDictionary)
    (plain : Dictionary) : Prop where
  names : indexed.names.toList = plain.names
  number? : ∀ name, indexed.number? name = (plain.number? name).map UInt32.ofNat

variable {indexed : IndexedDictionary} {plain : Dictionary}

/-- A number has the same name in both dictionaries. -/
theorem Represents.name?
    (represents : indexed.Represents plain)
    (number : Nat) :
    indexed.name? number = plain.name? number := by
  rw [Dictionary.name?, ← represents.names, Array.getElem?_toList]
  rfl

/-- Both dictionaries are of the same size. -/
theorem Represents.size (represents : indexed.Represents plain) :
    indexed.size = plain.size := by
  rw [Dictionary.size, ← represents.names]
  rfl

theorem Represents.knows
    (represents : indexed.Represents plain)
    (name : String) :
    (indexed.number? name).isSome = plain.knows name := by
  rw [represents.number?, Option.isSome_map]
  rfl

theorem represents_empty : Represents {} ⟨[]⟩ where
  names := rfl
  number? _ := rfl

/-- An insertion of a new name changes the index and the vector together. -/
theorem Represents.insert
    (represents : indexed.Represents plain)
    {name : String}
    (new : plain.number? name = none) :
    (indexed.insert name).2.Represents ⟨plain.names ++ [name]⟩ where
  names := by
    rw [← represents.names]
    exact Array.toList_push
  number? other := by
    change (indexed.numbers.insert name (UInt32.ofNat indexed.size))[other]? = _
    rw [Std.ExtTreeMap.getElem?_insert, represents.size]
    split
    case isTrue same =>
      cases Std.LawfulEqOrd.eq_of_compare same
      exact congrArg (Option.map UInt32.ofNat) (idxOf?_append_new new).symm
    case isFalse different =>
      refine (represents.number? other).trans
        (congrArg (Option.map UInt32.ofNat) ?_)
      refine (idxOf?_append_other ?_).symm
      rintro rfl
      exact different Std.ReflCmp.compare_self

/-- A dictionary that starts with a reserved name has just this one. -/
theorem represents_reserving (name : String) :
    (reserving name).Represents ⟨[name]⟩ := by
  have new : Dictionary.number? ⟨[]⟩ name = none := rfl
  exact represents_empty.insert new

/-- Interning a name keeps the two dictionaries in step. -/
theorem Represents.intern
    (represents : indexed.Represents plain)
    (name : String) :
    (indexed.intern name).2.Represents (plain.intern name).2 := by
  unfold IndexedDictionary.intern Dictionary.intern
  rw [represents.number?]
  cases new : plain.number? name with
  | some number => exact represents
  | none => exact represents.insert new

/-- A name that was interned is found under the number that was given. -/
theorem number?_intern (indexed : IndexedDictionary) (name : String) :
    (indexed.intern name).2.number? name = some (indexed.intern name).1 := by
  unfold IndexedDictionary.intern
  cases found : indexed.number? name with
  | some number => exact found
  | none => exact Std.ExtTreeMap.getElem?_insert_self

/-- As long as numbers fit into 32 bits, a name has the same number in both
dictionaries. -/
theorem Represents.toNat_number? (represents : indexed.Represents plain)
    (fits : plain.size ≤ 2 ^ 32) (name : String) :
    (indexed.number? name).map UInt32.toNat = plain.number? name := by
  rw [represents.number?]
  cases found : plain.number? name with
  | none => rfl
  | some number =>
      have below : number < plain.size :=
        (List.getElem?_eq_some_iff.mp (getElem?_of_idxOf? found)).1
      exact congrArg some
        (UInt32.toNat_ofNat_of_lt (Nat.lt_of_lt_of_le below fits))

/-- As long as numbers fit into 32 bits, both dictionaries give the same number
to a name. -/
theorem Represents.toNat_intern
    (represents : indexed.Represents plain)
    {name : String}
    (fits : (plain.intern name).2.size ≤ 2 ^ 32) :
    (indexed.intern name).1.toNat = (plain.intern name).1 := by
  have found := (represents.intern name).toNat_number? fits name
  rw [plain.number?_intern, number?_intern, Option.map_some] at found
  exact Option.some.inj found

end IndexedDictionary

namespace IndexedCatalog

/-- Both dictionaries are represented, and the counters are the same. -/
structure Represents (indexed : IndexedCatalog) (plain : Catalog) : Prop where
  types : indexed.types.Represents plain.types
  properties : indexed.properties.Represents plain.properties
  metrics : indexed.metrics = plain.metrics

/-- The numbers of the catalog are words of 32 bits. -/
structure Fits (catalog : Catalog) : Prop where
  types : catalog.types.size ≤ 2 ^ 32
  properties : catalog.properties.size ≤ 2 ^ 32

variable {indexed : IndexedCatalog} {plain : Catalog}

theorem represents_empty : Represents empty Catalog.empty where
  types := IndexedDictionary.represents_reserving Catalog.defaultTypeName
  properties := IndexedDictionary.represents_empty
  metrics := rfl

theorem run_noteLookup (found : Bool) (indexed : IndexedCatalog) :
    (noteLookup found : ExceptT Error (StateM IndexedCatalog) Unit) indexed =
      (.ok (), { indexed with metrics := indexed.metrics.countLookup found }) :=
        rfl

/-- What looking up the name of a type does. -/
theorem run_findType? (name : String) (indexed : IndexedCatalog) :
    findType? (some name) indexed =
      (((indexed.types.number? name).map UInt32.toNat).elim
        (.error (.unknownType name))
        fun number => .ok (some ⟨number⟩),
      { indexed with
        metrics :=
          indexed.metrics.countLookup
            (indexed.types.number? name).isSome }) := by
  refine (run_bind_ok (run_get indexed)).trans ?_
  refine (run_bind_ok (run_noteLookup _ indexed)).trans ?_
  cases indexed.types.number? name <;> rfl

/-- What looking up a key does. -/
theorem run_findProperty (key : String) (indexed : IndexedCatalog) :
    findProperty key indexed =
      (((indexed.properties.number? key).map UInt32.toNat).elim
        (.error (.unknownProperty key))
        fun number => .ok ⟨number⟩,
      { indexed with
        metrics :=
          indexed.metrics.countLookup
            (indexed.properties.number? key).isSome }) := by
  refine (run_bind_ok (run_get indexed)).trans ?_
  refine (run_bind_ok (run_noteLookup _ indexed)).trans ?_
  cases indexed.properties.number? key <;> rfl

/-- From represented catalogs both steps lead to represented catalogs, and they
give the same result if the numbers fit afterwards. -/
def Follows
    {α : Type}
    (step : StateM IndexedCatalog α)
    (plainStep : StateM Catalog α) : Prop :=
  ∀ indexed plain, Represents indexed plain →
    (step indexed).2.Represents (plainStep plain).2 ∧
      (Fits (plainStep plain).2 → (step indexed).1 = (plainStep plain).1)

theorem Follows.map
    {α β : Type}
    {step : StateM IndexedCatalog α}
    {plainStep : StateM Catalog α}
    (follows : Follows step plainStep)
    (result : α → β) :
    Follows (result <$> step) (result <$> plainStep) :=
      fun indexed plain represents =>
  ⟨(follows indexed plain represents).1,
    fun fits => congrArg result ((follows indexed plain represents).2 fits)⟩

/-- What is read from represented catalogs is the same. -/
theorem Follows.read
    {α : Type}
    {read : IndexedCatalog → α}
    {plainRead : Catalog → α}
    (same : ∀ indexed plain, Represents indexed plain →
      read indexed = plainRead plain) :
    Follows (return read (← get)) (return plainRead (← get)) :=
      fun indexed plain represents =>
  ⟨represents, fun _ => same indexed plain represents⟩

/-- Looking up a type gives the same number, and counts the same. -/
theorem follows_findType? (name : Option String) :
    Follows (findType? name).run (Catalog.findType? name).run := by
  intro indexed plain represents
  cases name with
  | none => exact ⟨represents, fun _ => rfl⟩
  | some name =>
      change Represents (findType? (some name) indexed).2
        (Catalog.findType? (some name) plain).2 ∧
        (Fits (Catalog.findType? (some name) plain).2 →
          (findType? (some name) indexed).1 =
            (Catalog.findType? (some name) plain).1)
      rw [run_findType?, Catalog.run_findType?]
      refine ⟨⟨represents.types, represents.properties, ?_⟩, fun fits => ?_⟩
      · exact congrArg₂ CatalogMetrics.countLookup represents.metrics
          (represents.types.knows name)
      · rw [represents.types.toNat_number? fits.types]

theorem follows_findProperty (key : String) :
    Follows (findProperty key).run (Catalog.findProperty key).run := by
  intro indexed plain represents
  change Represents (findProperty key indexed).2
    (Catalog.findProperty key plain).2 ∧
    (Fits (Catalog.findProperty key plain).2 →
      (findProperty key indexed).1 = (Catalog.findProperty key plain).1)
  rw [run_findProperty, Catalog.run_findProperty]
  refine ⟨⟨represents.types, represents.properties, ?_⟩, fun fits => ?_⟩
  · exact congrArg₂ CatalogMetrics.countLookup represents.metrics
      (represents.properties.knows key)
  · rw [represents.properties.toNat_number? fits.properties]

/-- Interning a type gives the same number and keeps the catalogs in step. -/
theorem follows_internType? (name : Option String) :
    Follows (internType? name) (Catalog.internType? name) := by
  intro indexed plain represents
  cases name with
  | none => exact ⟨represents, fun _ => rfl⟩
  | some name =>
      refine ⟨⟨represents.types.intern name, represents.properties, ?_⟩,
        fun fits => ?_⟩
      · exact congrArg₂ CatalogMetrics.countIntern represents.metrics
          (represents.types.knows name)
      · exact congrArg (some <| Id.mk ·)
          (represents.types.toNat_intern fits.types)

theorem follows_internProperty (key : String) :
    Follows (internProperty key) (Catalog.internProperty key) := by
  intro indexed plain represents
  refine ⟨⟨represents.types, represents.properties.intern key, ?_⟩,
    fun fits => ?_⟩
  · exact congrArg₂ CatalogMetrics.countIntern represents.metrics
      (represents.properties.knows key)
  · exact congrArg Id.mk (represents.properties.toNat_intern fits.properties)

/-- The indexed catalog answers a call as the plain one does. -/
theorem follows_answer (call : CatalogCall) :
    Follows (answer call) (Catalog.answer call) := by
  cases call with
  | findType name => exact (follows_findType? name).map _
  | internType name => exact (follows_internType? name).map _
  | findElementType name =>
      rw [Catalog.answer_findElementType_eq]
      exact (follows_findType? name).map _
  | internElementType name => exact (follows_internType? name).map _
  | typeName type =>
      exact .read fun indexed plain represents =>
        congrArg CatalogAnswer.name (represents.types.name? type.number)
  | countTypes =>
      exact .read fun indexed plain represents =>
        congrArg CatalogAnswer.count represents.types.size
  | findProperty key => exact (follows_findProperty key).map _
  | internProperty key => exact (follows_internProperty key).map _
  | propertyName property =>
      exact .read fun indexed plain represents =>
        congrArg CatalogAnswer.name
          (represents.properties.name? property.number)
  | readMetrics =>
      exact .read fun indexed plain represents =>
        congrArg CatalogAnswer.metrics represents.metrics

theorem run_cons
    (call : CatalogCall)
    (calls : List CatalogCall)
    (catalog : IndexedCatalog) :
    run catalog (call :: calls) =
      ((answer call catalog).1 :: (run (answer call catalog).2 calls).1,
        (run (answer call catalog).2 calls).2) := by
  rw [run, List.mapM_cons]
  rfl

/-- What fits into 32 bits later on fitted before. -/
theorem Fits.of_extends
    {catalog later : Catalog}
    (grows : catalog.Extends later)
    (fits : Fits later) : Fits catalog where
  types := Nat.le_trans grows.types.length_le fits.types
  properties := Nat.le_trans grows.properties.length_le fits.properties

/-- A run of an indexed catalog gives the answers of the plain one. -/
theorem Represents.run
    (represents : indexed.Represents plain)
    (calls : List CatalogCall) :
    (run indexed calls).2.Represents (Catalog.run plain calls).2 ∧
      (Fits (Catalog.run plain calls).2 →
        (run indexed calls).1 = (Catalog.run plain calls).1) := by
  induction calls generalizing indexed plain with
  | nil => exact ⟨represents, fun _ => rfl⟩
  | cons call calls inductionHypothesis =>
      obtain ⟨first, answered⟩ := follows_answer call indexed plain represents
      obtain ⟨last, others⟩ := inductionHypothesis first
      rw [run_cons, Catalog.run_cons]
      -- Later calls only add names, so that numbers that fit at the end fit all
      -- along.
      refine ⟨last, fun fits => congrArg₂ List.cons (answered ?_) (others fits)⟩
      exact .of_extends (Catalog.extends_run calls _) fits

/-- A call that interns no name of a type leaves all of them as they are. -/
theorem types_answer
    {call : CatalogCall}
    (other : call.internedType? = none)
    (catalog : IndexedCatalog) :
    (answer call catalog).2.types = catalog.types := by
  cases call with
  | findType name | findElementType name =>
      cases name with
      | none => rfl
      | some name => exact congrArg (types ·.2) (run_findType? name catalog)
  | internType name | internElementType name =>
      cases name with
      | none => rfl
      | some name => cases other
  | findProperty key =>
      exact congrArg (types ·.2) (run_findProperty key catalog)
  | typeName | countTypes | internProperty | propertyName | readMetrics => rfl

/-- A call that interns no key leaves all keys as they are. -/
theorem properties_answer
    {call : CatalogCall}
    (other : call.internedKey? = none)
    (catalog : IndexedCatalog) :
    (answer call catalog).2.properties = catalog.properties := by
  cases call with
  | findType name | findElementType name =>
      cases name with
      | none => rfl
      | some name =>
          exact congrArg (properties ·.2) (run_findType? name catalog)
  | internType name | internElementType name => cases name <;> rfl
  | findProperty key =>
      exact congrArg (properties ·.2) (run_findProperty key catalog)
  | internProperty key => cases other
  | typeName | countTypes | propertyName | readMetrics => rfl

/-- A call that interns nothing gives the answer of the plain catalog. -/
theorem Represents.answer_eq
    (represents : indexed.Represents plain)
    (fits : Fits plain)
    {call : CatalogCall}
    (reads : call.interns = false) :
    (answer call indexed).1 = (Catalog.answer call plain).1 := by
  have ⟨noType, noKey⟩ : call.internedType? = none ∧
      call.internedKey? = none := by
    simpa [CatalogCall.interns] using reads
  refine (follows_answer call indexed plain represents).2 ⟨?_, ?_⟩
  · rw [Catalog.types_answer noType]
    exact fits.types
  · rw [Catalog.properties_answer noKey]
    exact fits.properties

/-- What a plain dictionary holds is what the calls answer. -/
theorem Represents.answer_typeName_eq_iff
    (represents : indexed.Represents plain)
    {type : TypeId}
    {name : String} :
    (answer (.typeName type) indexed).1 = .name (some name) ↔
      plain.types.name? type.number = some name := by
  rw [← represents.types.name?]
  exact iff_of_eq (CatalogAnswer.name.injEq _ _)

theorem Represents.answer_propertyName_eq_iff
    (represents : indexed.Represents plain)
    {property : PropertyId}
    {key : String} :
    (answer (.propertyName property) indexed).1 = .name (some key) ↔
      plain.properties.name? property.number = some key := by
  rw [← represents.properties.name?]
  exact iff_of_eq (CatalogAnswer.name.injEq _ _)

/-- In both dictionaries the numbers of names are dense and are found and named
alike, no name has two, and type 0 is the default type.  What a call once put
together stays together.  A call changes a dictionary only if it interns a name
there, and the counters are exact. -/
theorem numbers_names_for_good (calls : List CatalogCall)
    (types : (run empty calls).2.types.size ≤ 2 ^ 32)
    (properties : (run empty calls).2.properties.size ≤ 2 ^ 32) :
    let answers := (run empty calls).1
    let later := (run empty calls).2
    let reply := fun call => (answer call later).1
    ((∀ name type, reply (.findType (some name)) = .type (some type) ↔
        reply (.typeName type) = .name (some name)) ∧
      (∀ type, (∃ name, reply (.typeName type) = .name (some name)) ↔
        type.number < later.types.size) ∧
      (∀ name first second, reply (.typeName first) = .name (some name) →
        reply (.typeName second) = .name (some name) → first = second)) ∧
    ((∀ key property, reply (.findProperty key) = .property property ↔
        reply (.propertyName property) = .name (some key)) ∧
      (∀ property, (∃ key, reply (.propertyName property) = .name (some key)) ↔
        property.number < later.properties.size) ∧
      (∀ key first second, reply (.propertyName first) = .name (some key) →
        reply (.propertyName second) = .name (some key) → first = second)) ∧
    reply (.typeName .default) = .name (some "_default") ∧
    (∀ call answered, (call, answered) ∈ calls.zip answers →
      (∀ name, call.internedType? = some name →
        ∃ type, call.namedType? answered = some (name, type)) ∧
      (∀ key, call.internedKey? = some key →
        ∃ property, call.keyedProperty? answered = some (key, property)) ∧
      (∀ name type, call.namedType? answered = some (name, type) →
        reply (.typeName type) = .name (some name)) ∧
      (∀ key property, call.keyedProperty? answered = some (key, property) →
        reply (.propertyName property) = .name (some key))) ∧
    (∀ call,
      (call.internedType? = none → (answer call later).2.types = later.types) ∧
      (call.internedKey? = none →
        (answer call later).2.properties = later.properties)) ∧
    (later.metrics.interns =
      later.metrics.internsFound + later.metrics.internsNew ∧
      later.metrics.internsNew =
        (later.types.size - 1) + later.properties.size ∧
      later.metrics.lookupsFailed ≤ later.metrics.lookups ∧
      later.metrics.interns = calls.countP CatalogCall.interns ∧
      later.metrics.lookups = calls.countP CatalogCall.looksUp ∧
      later.metrics.lookupsFailed = answers.countP CatalogAnswer.failed) := by
  intro answers later reply
  obtain ⟨represents, same⟩ := represents_empty.run calls
  have consistent := Catalog.consistent_empty.run calls
  have fits : Fits (Catalog.run .empty calls).2 :=
    ⟨represents.types.size ▸ types, represents.properties.size ▸ properties⟩
  have finds name : (answer (.findType name) later).1 = _ :=
    represents.answer_eq fits rfl
  have findsKey key : (answer (.findProperty key) later).1 = _ :=
    represents.answer_eq fits rfl
  simp only [reply, later, represents.answer_typeName_eq_iff,
    represents.answer_propertyName_eq_iff, finds,
    Catalog.answer_findType_eq_iff, findsKey,
      Catalog.answer_findProperty_eq_iff,
    represents.types.size, represents.properties.size, represents.metrics,
    answers, same fits]
  refine ⟨⟨?_, ?_, ?_⟩, ⟨?_, ?_, ?_⟩, ?_, ?_, ?_, ?_⟩
  · exact fun name type => Dictionary.number?_eq_some_iff consistent.types
  · exact fun type => Dictionary.exists_name?_iff
  · exact fun name first second here there =>
      Id.ext (Dictionary.name?_injective consistent.types here there)
  · exact fun key property =>
      Dictionary.number?_eq_some_iff consistent.properties
  · exact fun property => Dictionary.exists_name?_iff
  · exact fun key first second here there =>
      Id.ext (Dictionary.name?_injective consistent.properties here there)
  · exact consistent.default
  · intro call answered member
    obtain ⟨earlier, rfl⟩ := Catalog.exists_answer_of_mem_zip_run member
    exact ⟨fun name interned =>
      Catalog.exists_namedType?_answer interned earlier,
        fun key interned =>
          Catalog.exists_keyedProperty?_answer interned earlier,
        fun name type => Catalog.typeName?_run Catalog.consistent_empty member,
        fun key property => Catalog.propertyName?_run member⟩
  · exact fun call =>
      ⟨fun other => types_answer other _,
        fun other => properties_answer other _⟩
  · have known : 0 < (Catalog.run .empty calls).2.types.size :=
      Dictionary.exists_name?_iff.mp ⟨_, consistent.default⟩
    have new := consistent.internsNew
    obtain ⟨interns, lookups, lookupsFailed⟩ := Catalog.metrics_run calls .empty
    exact ⟨consistent.interns, by omega, consistent.lookups,
      interns.trans (Nat.zero_add _), lookups.trans (Nat.zero_add _),
      lookupsFailed.trans (Nat.zero_add _)⟩

/-- One name interned as a type and as a key, and another one looked up in
vain. -/
theorem numbers_names_for_good_in_both_dictionaries :
    let calls : List CatalogCall :=
      [.internType (some "FOLLOWS"), .internProperty "FOLLOWS",
        .internElementType (some "FOLLOWS"), .findType (some "LIKES")]
    let later := (run empty calls).2
    (later.types.size ≤ 2 ^ 32 ∧ later.properties.size ≤ 2 ^ 32) ∧
    (run empty calls).1 =
      [.type (some ⟨1⟩), .property ⟨0⟩, .elementType ⟨1⟩,
        .failure (.unknownType "LIKES")] ∧
    (answer (.typeName ⟨1⟩) later).1 = .name (some "FOLLOWS") ∧
    (answer (.propertyName ⟨0⟩) later).1 = .name (some "FOLLOWS") ∧
    (answer (.typeName .default) later).1 = .name (some "_default") ∧
    later.metrics.interns =
      later.metrics.internsFound + later.metrics.internsNew := by
  intro calls later
  have types : later.types.size ≤ 2 ^ 32 := by decide
  have properties : later.properties.size ≤ 2 ^ 32 := by decide
  obtain ⟨_, _, default, kept, _, counted, _⟩ :=
    numbers_names_for_good calls types properties
  refine ⟨⟨types, properties⟩, by decide, ?_, ?_, default, counted⟩
  · exact (kept (.internElementType (some "FOLLOWS")) (.elementType ⟨1⟩)
      (by decide)).2.2.1 _ _ rfl
  · exact (kept (.internProperty "FOLLOWS") (.property ⟨0⟩) (by decide)).2.2.2 _
      _ rfl

end IndexedCatalog

end DeltaGraph
