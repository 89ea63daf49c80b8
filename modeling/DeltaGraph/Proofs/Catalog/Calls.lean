import DeltaGraph.Catalog.Call
import DeltaGraph.Proofs.Catalog

/-!
# Runs of a catalog

What a call changes in a catalog, and what stays true through runs of calls: a
name has one number and a number one name, numbers are given densely in order of
first use, and the counters agree with the dictionaries.
-/

namespace DeltaGraph

namespace Dictionary

variable {dictionary : Dictionary} {name : String} {number : Nat}

/-- In a dictionary without repetition names and numbers determine each
other. -/
theorem number?_eq_some_iff (different : dictionary.names.Nodup) :
    dictionary.number? name = some number ↔
      dictionary.name? number = some name := by
  refine ⟨getElem?_of_idxOf?, fun found => ?_⟩
  obtain ⟨place, numbered⟩ := exists_idxOf? (List.mem_of_getElem? found)
  have below := (List.getElem?_eq_some_iff.mp found).1
  have same := (List.getElem?_inj below different).mp
    (found.trans (getElem?_of_idxOf? numbered).symm)
  rw [same]
  exact numbered

/-- The numbers are dense. -/
theorem exists_name?_iff : (∃ name, dictionary.name? number = some name) ↔
    number < dictionary.size := by
  rw [← Option.isSome_iff_exists, name?, Option.isSome_iff_ne_none, ne_eq,
    List.getElem?_eq_none_iff, Nat.not_le]
  exact Iff.rfl

/-- In a dictionary without repetition a name has one number. -/
theorem name?_injective
    (different : dictionary.names.Nodup)
    {other : Nat}
    (first : dictionary.name? number = some name)
    (second : dictionary.name? other = some name) :
    number = other :=
  Option.some.inj (((number?_eq_some_iff different).mpr first).symm.trans
    ((number?_eq_some_iff different).mpr second))

/-- A number keeps its name while a dictionary grows at its end. -/
theorem name?_of_prefix
    {later : Dictionary}
    (grows : dictionary.names <+: later.names)
    (named : dictionary.name? number = some name) :
    later.name? number = some name := by
  obtain ⟨below, rfl⟩ := List.getElem?_eq_some_iff.mp named
  exact List.prefix_iff_getElem?.mp grows number below

/-- Interning appends a name the dictionary does not know and changes nothing
else. -/
theorem names_intern (dictionary : Dictionary) (name : String) :
    (dictionary.intern name).2.names =
      if dictionary.knows name then dictionary.names
        else dictionary.names ++ [name] := by
  unfold intern knows
  cases dictionary.number? name <;> rfl

theorem nodup_intern (different : dictionary.names.Nodup) (name : String) :
    (dictionary.intern name).2.names.Nodup := by
  rw [names_intern]
  split
  · exact different
  · rename_i unknown
    have missing : name ∉ dictionary.names := fun member => by
      obtain ⟨place, numbered⟩ := exists_idxOf? member
      exact unknown (by rw [knows, number?, numbered]; rfl)
    exact List.nodup_append.mpr ⟨different, List.nodup_singleton name, by
      rintro other member _ (_ | ⟨_, ⟨⟩⟩) rfl
      exact missing member⟩

/-- A dictionary grows with the count of new names. -/
theorem size_intern
    (dictionary : Dictionary)
    (name : String)
    (metrics : CatalogMetrics) :
    (dictionary.intern name).2.size + metrics.internsNew =
      dictionary.size +
        (metrics.countIntern (dictionary.knows name)).internsNew := by
  rw [size, names_intern, CatalogMetrics.countIntern]
  cases dictionary.knows name <;> simp [size]; omega

end Dictionary

/-- Every interning is counted either as one that found the name or as one that
did not. -/
theorem CatalogMetrics.found_add_new_countIntern
    (metrics : CatalogMetrics)
    (found : Bool) :
    (metrics.countIntern found).internsFound +
      (metrics.countIntern found).internsNew =
      metrics.internsFound + metrics.internsNew + 1 := by
  cases found <;> simp [countIntern] <;> omega

namespace Catalog

/-! ## What a call does -/

/-- The catalog after a look-up that found a name or did not. -/
def lookedUp (catalog : Catalog) (found : Bool) : Catalog :=
  { catalog with metrics := catalog.metrics.countLookup found }

/-- The catalog after interning the name of a type. -/
def withType (catalog : Catalog) (name : String) : Catalog :=
  { catalog with
    types := (catalog.types.intern name).2
    metrics := catalog.metrics.countIntern (catalog.types.knows name) }

/-- The catalog after interning a key. -/
def withKey (catalog : Catalog) (key : String) : Catalog :=
  { catalog with
    properties := (catalog.properties.intern key).2
    metrics := catalog.metrics.countIntern (catalog.properties.knows key) }

theorem run_noteLookup (found : Bool) (catalog : Catalog) :
    (noteLookup found : ExceptT Error (StateM Catalog) Unit) catalog =
      (.ok (), catalog.lookedUp found) := rfl

/-- What looking up the name of a type does. -/
theorem run_findType? (name : String) (catalog : Catalog) :
    findType? (some name) catalog =
      ((catalog.types.number? name).elim (.error (.unknownType name))
        fun number => .ok (some ⟨number⟩),
      catalog.lookedUp (catalog.types.knows name)) := by
  refine (run_bind_ok (run_get catalog)).trans ?_
  refine (run_bind_ok (run_noteLookup _ catalog)).trans ?_
  unfold Dictionary.knows
  cases catalog.types.number? name <;> rfl

/-- What looking up a key does. -/
theorem run_findProperty (key : String) (catalog : Catalog) :
    findProperty key catalog =
      ((catalog.properties.number? key).elim (.error (.unknownProperty key))
        fun number => .ok ⟨number⟩,
      catalog.lookedUp (catalog.properties.knows key)) := by
  refine (run_bind_ok (run_get catalog)).trans ?_
  refine (run_bind_ok (run_noteLookup _ catalog)).trans ?_
  unfold Dictionary.knows
  cases catalog.properties.number? key <;> rfl

theorem answer_findType (name : String) (catalog : Catalog) :
    answer (.findType (some name)) catalog =
      (match catalog.types.number? name with
        | some number => .type (some ⟨number⟩)
        | none => .failure (.unknownType name),
      catalog.lookedUp (catalog.types.knows name)) := by
  change Prod.map (CatalogAnswer.ofOutcome .type) id
    (findType? (some name) catalog) = _
  rw [run_findType?]
  cases catalog.types.number? name <;> rfl

/-- Looking up the type of an element is looking up its name. -/
theorem answer_findElementType_eq (name : Option String) :
    answer (.findElementType name) =
      (CatalogAnswer.ofOutcome fun type =>
        .elementType (type.getD .default)) <$>
        (findType? name).run := by
  funext catalog
  change Prod.map (CatalogAnswer.ofOutcome .elementType) id
    (findElementType name catalog) =
    Prod.map (CatalogAnswer.ofOutcome _) id (findType? name catalog)
  rw [findElementType, run_bind]
  rcases findType? name catalog with ⟨_ | _, _⟩ <;> rfl

theorem answer_findElementType (name : String) (catalog : Catalog) :
    answer (.findElementType (some name)) catalog =
      (match catalog.types.number? name with
        | some number => .elementType ⟨number⟩
        | none => .failure (.unknownType name),
      catalog.lookedUp (catalog.types.knows name)) := by
  rw [answer_findElementType_eq]
  change Prod.map (CatalogAnswer.ofOutcome _) id
    (findType? (some name) catalog) = _
  rw [run_findType?]
  cases catalog.types.number? name <;> rfl

theorem answer_findProperty (key : String) (catalog : Catalog) :
    answer (.findProperty key) catalog =
      (match catalog.properties.number? key with
        | some number => .property ⟨number⟩
        | none => .failure (.unknownProperty key),
      catalog.lookedUp (catalog.properties.knows key)) := by
  change Prod.map (CatalogAnswer.ofOutcome .property) id
    (findProperty key catalog) = _
  rw [run_findProperty]
  cases catalog.properties.number? key <;> rfl

/-- A type lookup succeeds exactly with the number the dictionary holds for the
name. -/
theorem answer_findType_eq_iff
    {name : String}
    {catalog : Catalog}
    {type : TypeId} :
    (answer (.findType (some name)) catalog).1 = .type (some type) ↔
      catalog.types.number? name = some type.number := by
  rw [answer_findType]
  cases catalog.types.number? name <;> simp [Id.ext_iff]

theorem answer_findProperty_eq_iff
    {key : String}
    {catalog : Catalog}
    {property : PropertyId} :
    (answer (.findProperty key) catalog).1 = .property property ↔
      catalog.properties.number? key = some property.number := by
  rw [answer_findProperty]
  cases catalog.properties.number? key <;> simp [Id.ext_iff]

/-- What a call does, and which calls do it: one interns the name of a type, or
interns a key, or looks a name up, or only reads. -/
inductive Does
    (catalog : Catalog)
    (call : CatalogCall) : CatalogAnswer × Catalog → Prop
  | internType {name : String} {answered : CatalogAnswer}
      (type : call.internedType? = some name) (key : call.internedKey? = none)
      (sought : call.soughtName? = none) (failed : answered.failed = false) :
      Does catalog call (answered, catalog.withType name)
  | internKey {name : String} {answered : CatalogAnswer}
      (type : call.internedType? = none) (key : call.internedKey? = some name)
      (sought : call.soughtName? = none) (failed : answered.failed = false) :
      Does catalog call (answered, catalog.withKey name)
  | lookUp {name : String} {found : Bool} {answered : CatalogAnswer}
      (type : call.internedType? = none) (key : call.internedKey? = none)
      (sought : call.soughtName? = some name)
      (failed : answered.failed = !found) :
      Does catalog call (answered, catalog.lookedUp found)
  | read {answered : CatalogAnswer}
      (type : call.internedType? = none) (key : call.internedKey? = none)
      (sought : call.soughtName? = none) (failed : answered.failed = false) :
      Does catalog call (answered, catalog)

/-- Answering a call does to the catalog what the call is specified to do. -/
theorem does_answer (call : CatalogCall) (catalog : Catalog) :
    catalog.Does call (answer call catalog) := by
  cases call with
  | findType name =>
      cases name with
      | none => exact .read rfl rfl rfl rfl
      | some name =>
          rw [answer_findType, Dictionary.knows]
          cases catalog.types.number? name <;> exact .lookUp rfl rfl rfl rfl
  | internType name =>
      cases name with
      | none => exact .read rfl rfl rfl rfl
      | some name => exact .internType rfl rfl rfl rfl
  | findElementType name =>
      cases name with
      | none => exact .read rfl rfl rfl rfl
      | some name =>
          rw [answer_findElementType, Dictionary.knows]
          cases catalog.types.number? name <;> exact .lookUp rfl rfl rfl rfl
  | internElementType name =>
      cases name with
      | none => exact .read rfl rfl rfl rfl
      | some name => exact .internType rfl rfl rfl rfl
  | findProperty key =>
      rw [answer_findProperty, Dictionary.knows]
      cases catalog.properties.number? key <;> exact .lookUp rfl rfl rfl rfl
  | internProperty key => exact .internKey rfl rfl rfl rfl
  | typeName | countTypes | propertyName | readMetrics =>
      exact .read rfl rfl rfl rfl

/-- A call only adds names. -/
theorem leads_answer (call : CatalogCall) : Leads Extends (answer call) := by
  intro catalog
  have does := does_answer call catalog
  generalize Catalog.answer call catalog = outcome at does ⊢
  cases does with
  | internType => exact ⟨catalog.types.prefix_intern _, List.prefix_refl _⟩
  | internKey => exact ⟨List.prefix_refl _, catalog.properties.prefix_intern _⟩
  | lookUp => exact ⟨List.prefix_refl _, List.prefix_refl _⟩
  | read => exact .refl catalog

/-- A call that interns no name of a type leaves all of them as they are. -/
theorem types_answer {call : CatalogCall} (other : call.internedType? = none)
    (catalog : Catalog) : (answer call catalog).2.types = catalog.types := by
  have does := does_answer call catalog
  generalize Catalog.answer call catalog = outcome at does ⊢
  cases does with
  | internType type =>
      rw [other] at type
      cases type
  | internKey | lookUp | read => rfl

/-- A call that interns no key leaves all keys as they are. -/
theorem properties_answer
    {call : CatalogCall}
    (other : call.internedKey? = none)
    (catalog : Catalog) :
    (answer call catalog).2.properties = catalog.properties := by
  have does := does_answer call catalog
  generalize Catalog.answer call catalog = outcome at does ⊢
  cases does with
  | internKey _ key =>
      rw [other] at key
      cases key
  | internType | lookUp | read => rfl

/-! ## What stays true -/

/-- No name is kept twice, the default type is the first one, and the counters
agree with each other and with the dictionaries. -/
structure Consistent (catalog : Catalog) : Prop where
  types : catalog.types.names.Nodup
  properties : catalog.properties.names.Nodup
  default : catalog.types.name? 0 = some defaultTypeName
  interns :
    catalog.metrics.interns =
      catalog.metrics.internsFound + catalog.metrics.internsNew
  internsNew :
    catalog.metrics.internsNew + 1 =
      catalog.types.size + catalog.properties.size
  lookups : catalog.metrics.lookupsFailed ≤ catalog.metrics.lookups

theorem consistent_empty : Consistent empty where
  types := List.nodup_singleton _
  properties := List.nodup_nil
  default := rfl
  interns := rfl
  internsNew := rfl
  lookups := Nat.le_refl 0

namespace Consistent

variable {catalog : Catalog}

theorem withType (consistent : catalog.Consistent) (name : String) :
    (catalog.withType name).Consistent where
  types := Dictionary.nodup_intern consistent.types name
  properties := consistent.properties
  default :=
    Dictionary.name?_of_prefix (catalog.types.prefix_intern name)
      consistent.default
  interns := (congrArg (· + 1) consistent.interns).trans
    (catalog.metrics.found_add_new_countIntern _).symm
  internsNew := by
    have agree := consistent.internsNew
    have grows := catalog.types.size_intern name catalog.metrics
    simp only [Catalog.withType]
    omega
  lookups := consistent.lookups

theorem withKey (consistent : catalog.Consistent) (key : String) :
    (catalog.withKey key).Consistent where
  types := consistent.types
  properties := Dictionary.nodup_intern consistent.properties key
  default := consistent.default
  interns := (congrArg (· + 1) consistent.interns).trans
    (catalog.metrics.found_add_new_countIntern _).symm
  internsNew := by
    have agree := consistent.internsNew
    have grows := catalog.properties.size_intern key catalog.metrics
    simp only [Catalog.withKey]
    omega
  lookups := consistent.lookups

theorem lookedUp (consistent : catalog.Consistent) (found : Bool) :
    (catalog.lookedUp found).Consistent where
  types := consistent.types
  properties := consistent.properties
  default := consistent.default
  interns := consistent.interns
  internsNew := consistent.internsNew
  lookups := by
    have agree := consistent.lookups
    cases found <;> simp [Catalog.lookedUp, CatalogMetrics.countLookup] <;>
      omega

theorem answer (consistent : catalog.Consistent) (call : CatalogCall) :
    (answer call catalog).2.Consistent := by
  have does := does_answer call catalog
  generalize Catalog.answer call catalog = outcome at does ⊢
  cases does with
  | internType => exact consistent.withType _
  | internKey => exact consistent.withKey _
  | lookUp => exact consistent.lookedUp _
  | read => exact consistent

end Consistent

/-- A call that interns the name of a type answers a type for it. -/
theorem exists_namedType?_answer {call : CatalogCall} {name : String}
    (interned : call.internedType? = some name) (catalog : Catalog) :
    ∃ type, call.namedType? (answer call catalog).1 = some (name, type) := by
  cases call with
  | internType given | internElementType given =>
      cases given with
      | none => cases interned
      | some given =>
          cases interned
          exact ⟨_, rfl⟩
  | findType | findElementType | typeName | countTypes | findProperty
  | internProperty | propertyName | readMetrics => cases interned

/-- A call that interns a key answers a property for it. -/
theorem exists_keyedProperty?_answer {call : CatalogCall} {key : String}
    (interned : call.internedKey? = some key) (catalog : Catalog) :
    ∃ property,
      call.keyedProperty? (answer call catalog).1 = some (key, property) := by
  cases call with
  | internProperty given =>
      cases interned
      exact ⟨_, rfl⟩
  | findType | internType | findElementType | internElementType | typeName
  | countTypes | findProperty | propertyName | readMetrics => cases interned

/-- A name and the type that a call put together stay together. -/
theorem typeName?_answer {catalog : Catalog} (consistent : catalog.Consistent)
    {call : CatalogCall} {name : String} {type : TypeId}
    (named : call.namedType? (answer call catalog).1 = some (name, type)) :
    (answer call catalog).2.typeName? type = some name := by
  have default := (consistent.answer call).default
  cases call with
  | findType given =>
      cases given with
      | none => cases named
      | some given =>
          rw [answer_findType] at named ⊢
          cases found : catalog.types.number? given <;> rw [found] at named <;>
            cases named
          exact getElem?_of_idxOf? found
  | internType given =>
      cases given with
      | none => cases named
      | some given =>
          cases named
          exact getElem?_of_idxOf? (catalog.types.number?_intern _)
  | findElementType given =>
      cases given with
      | none =>
          cases named
          exact default
      | some given =>
          rw [answer_findElementType] at named ⊢
          cases found : catalog.types.number? given <;> rw [found] at named <;>
            cases named
          exact getElem?_of_idxOf? found
  | internElementType given =>
      cases given with
      | none =>
          cases named
          exact default
      | some given =>
          cases named
          exact getElem?_of_idxOf? (catalog.types.number?_intern _)
  | typeName given =>
      change CatalogCall.namedType? (.typeName given)
        (.name (catalog.typeName? given)) = _ at named
      change catalog.typeName? type = _
      cases found : catalog.typeName? given <;> rw [found] at named <;>
        cases named
      exact found
  | findProperty key =>
      rw [answer_findProperty] at named
      cases found : catalog.properties.number? key <;> rw [found] at named <;>
        cases named
  | countTypes | internProperty | propertyName | readMetrics => cases named

/-- A key and the property that a call put together stay together. -/
theorem propertyName?_answer
    {catalog : Catalog}
    {call : CatalogCall}
    {key : String}
    {property : PropertyId}
    (named : call.keyedProperty? (answer call catalog).1 =
      some (key, property)) :
    (answer call catalog).2.propertyName? property = some key := by
  cases call with
  | findProperty given =>
      rw [answer_findProperty] at named ⊢
      cases found : catalog.properties.number? given <;> rw [found] at named <;>
        cases named
      exact getElem?_of_idxOf? found
  | internProperty given =>
      cases named
      exact getElem?_of_idxOf? (catalog.properties.number?_intern _)
  | propertyName given =>
      change CatalogCall.keyedProperty? (.propertyName given)
        (.name (catalog.propertyName? given)) = _ at named
      change catalog.propertyName? property = _
      cases found : catalog.propertyName? given <;> rw [found] at named <;>
        cases named
      exact found
  | findType | internType | findElementType | internElementType | typeName
  | countTypes | readMetrics => cases named

/-! ## Runs of calls -/

theorem run_cons
    (call : CatalogCall)
    (calls : List CatalogCall)
    (catalog : Catalog) :
    run catalog (call :: calls) =
      ((answer call catalog).1 :: (run (answer call catalog).2 calls).1,
        (run (answer call catalog).2 calls).2) := by
  rw [run, List.mapM_cons]
  rfl

/-- A run of calls only ever extends the catalog. -/
theorem extends_run (calls : List CatalogCall) (catalog : Catalog) :
    catalog.Extends (run catalog calls).2 := by
  induction calls generalizing catalog with
  | nil => exact .refl catalog
  | cons call calls inductionHypothesis =>
      rw [run_cons]
      exact (leads_answer call catalog).trans (inductionHypothesis _)

/-- A run of calls keeps a catalog consistent. -/
theorem Consistent.run {catalog : Catalog} (consistent : catalog.Consistent)
    (calls : List CatalogCall) : (run catalog calls).2.Consistent := by
  induction calls generalizing catalog with
  | nil => exact consistent
  | cons call calls inductionHypothesis =>
      rw [run_cons]
      exact inductionHypothesis (consistent.answer call)

/-- An answer of a run is the answer of a catalog that the run goes through, and
that is extended up to its end. -/
theorem exists_reached_of_mem_zip_run
    {calls : List CatalogCall}
    {catalog : Catalog}
    {call : CatalogCall}
    {answered : CatalogAnswer}
    (member : (call, answered) ∈ calls.zip (run catalog calls).1) :
    ∃ reached : Catalog, (catalog.Consistent → reached.Consistent) ∧
      (answer call reached).1 = answered ∧
      (answer call reached).2.Extends (run catalog calls).2 := by
  induction calls generalizing catalog with
  | nil => cases member
  | cons first calls inductionHypothesis =>
      rw [run_cons] at member ⊢
      rcases List.mem_cons.mp member with here | later
      · cases here
        exact ⟨catalog, id, rfl, extends_run calls _⟩
      · obtain ⟨reached, keeps, same, grows⟩ := inductionHypothesis later
        exact ⟨reached, fun consistent => keeps (consistent.answer first), same,
          grows⟩

/-- The answers of a run are answers of catalogs. -/
theorem exists_answer_of_mem_zip_run
    {calls : List CatalogCall}
    {catalog : Catalog}
    {call : CatalogCall}
    {answered : CatalogAnswer}
    (member : (call, answered) ∈ calls.zip (run catalog calls).1) :
    ∃ earlier, (answer call earlier).1 = answered := by
  obtain ⟨reached, _, same, _⟩ := exists_reached_of_mem_zip_run member
  exact ⟨reached, same⟩

/-- A name and the type that a call of a run put together stay together up to
its end. -/
theorem typeName?_run
    {catalog : Catalog}
    (consistent : catalog.Consistent)
    {calls : List CatalogCall}
    {call : CatalogCall}
    {answered : CatalogAnswer}
    (member : (call, answered) ∈ calls.zip (run catalog calls).1)
    {name : String}
    {type : TypeId}
    (named : call.namedType? answered = some (name, type)) :
    (run catalog calls).2.typeName? type = some name := by
  obtain ⟨reached, keeps, rfl, grows⟩ := exists_reached_of_mem_zip_run member
  exact Dictionary.name?_of_prefix grows.types
    (typeName?_answer (keeps consistent) named)

/-- A key and the property that a call of a run put together stay together up to
its end. -/
theorem propertyName?_run
    {catalog : Catalog}
    {calls : List CatalogCall}
    {call : CatalogCall}
    {answered : CatalogAnswer}
    (member : (call, answered) ∈ calls.zip (run catalog calls).1)
    {key : String}
    {property : PropertyId}
    (keyed : call.keyedProperty? answered = some (key, property)) :
    (run catalog calls).2.propertyName? property = some key := by
  obtain ⟨reached, _, rfl, grows⟩ := exists_reached_of_mem_zip_run member
  exact Dictionary.name?_of_prefix grows.properties (propertyName?_answer keyed)

/-- The counters count a call. -/
theorem metrics_answer (call : CatalogCall) (catalog : Catalog) :
    let metrics := (answer call catalog).2.metrics
    metrics.interns =
      catalog.metrics.interns + (if call.interns then 1 else 0) ∧
    metrics.lookups =
      catalog.metrics.lookups + (if call.looksUp then 1 else 0) ∧
    metrics.lookupsFailed =
      catalog.metrics.lookupsFailed +
        (if (answer call catalog).1.failed then 1 else 0) := by
  have interns :
      call.interns = (call.internedType?.isSome || call.internedKey?.isSome) :=
    rfl
  have looksUp : call.looksUp = call.soughtName?.isSome := rfl
  have does := does_answer call catalog
  generalize Catalog.answer call catalog = outcome at does ⊢
  cases does with
  | internType type key sought failed | internKey type key sought failed
  | read type key sought failed =>
      rw [interns, looksUp, type, key, sought, failed]
      exact ⟨rfl, rfl, rfl⟩
  | @lookUp _ found _ type key sought failed =>
      rw [interns, looksUp, type, key, sought, failed]
      cases found <;> exact ⟨rfl, rfl, rfl⟩

/-- The counters count the calls of a run. -/
theorem metrics_run (calls : List CatalogCall) (catalog : Catalog) :
    let answers := (run catalog calls).1
    let metrics := (run catalog calls).2.metrics
    metrics.interns =
      catalog.metrics.interns + calls.countP CatalogCall.interns ∧
    metrics.lookups =
      catalog.metrics.lookups + calls.countP CatalogCall.looksUp ∧
    metrics.lookupsFailed =
      catalog.metrics.lookupsFailed + answers.countP CatalogAnswer.failed := by
  induction calls generalizing catalog with
  | nil => exact ⟨rfl, rfl, rfl⟩
  | cons call calls inductionHypothesis =>
      obtain ⟨interns, lookups, lookupsFailed⟩ := metrics_answer call catalog
      obtain ⟨internsMore, lookupsMore, lookupsFailedMore⟩ :=
        inductionHypothesis (answer call catalog).2
      simp only [run_cons, List.countP_cons]
      omega

end Catalog

end DeltaGraph
