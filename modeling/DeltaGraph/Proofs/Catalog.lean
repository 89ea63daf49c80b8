import DeltaGraph.Catalog
import DeltaGraph.Proofs.Effects
import DeltaGraph.Proofs.Lists

/-!
# Growing catalogs

Interning and looking up only add names to a catalog, so that a name keeps the
number that it has once it is known.
-/

namespace DeltaGraph

/-- Interning a name returns its number. -/
theorem Dictionary.number?_intern (dictionary : Dictionary) (name : String) :
    (dictionary.intern name).2.number? name =
      some (dictionary.intern name).1 := by
  unfold intern
  cases found : dictionary.number? name with
  | some number => exact found
  | none => exact idxOf?_append_new found

/-- Interning a name keeps every earlier number. -/
theorem Dictionary.prefix_intern (dictionary : Dictionary) (name : String) :
    dictionary.names <+: (dictionary.intern name).2.names := by
  unfold intern
  cases dictionary.number? name with
  | some number => exact List.prefix_refl _
  | none => exact List.prefix_append _ _

/-- A name keeps its number while the dictionary grows. -/
theorem Dictionary.number?_of_prefix
    {dictionary later : Dictionary}
    (grows : dictionary.names <+: later.names)
    {name : String}
    {number : Nat}
    (found : dictionary.number? name = some number) :
    later.number? name = some number := by
  obtain ⟨more, same⟩ := grows
  rw [number?, ← same]
  exact idxOf?_append found more

namespace Catalog

/-- The later catalog has the names of the earlier one, with the same numbers,
and maybe more. -/
structure Extends (catalog later : Catalog) : Prop where
  types : catalog.types.names <+: later.types.names
  properties : catalog.properties.names <+: later.properties.names

theorem Extends.refl (catalog : Catalog) : catalog.Extends catalog :=
  ⟨List.prefix_refl _, List.prefix_refl _⟩

/-- A catalog that extends an extension extends the first one. -/
theorem Extends.trans
    {first second third : Catalog}
    (earlier : first.Extends second)
    (later : second.Extends third) : first.Extends third :=
  ⟨earlier.types.trans later.types, earlier.properties.trans later.properties⟩

instance : IsPreorder Catalog Catalog.Extends where
  refl := .refl
  trans _ _ _ := .trans

/-- The type is the one with the name; without a name there is none. -/
def Numbers
    (catalog : Catalog)
    (name : Option String)
    (type : Option TypeId) : Prop :=
  Option.Rel (fun name type => catalog.types.number? name = some type.number)
    name type

/-- The property is the one with the key. -/
def NumbersKey
    (catalog : Catalog)
    (key : String)
    (property : PropertyId) : Prop :=
  catalog.properties.number? key = some property.number

/-- The values are those with the keys, one after another. -/
def NumbersValues (catalog : Catalog) (named : List (String × Value))
    (values : List (PropertyId × Value)) : Prop :=
  List.Forall₂
    (fun entry value => catalog.NumbersKey entry.1 value.1 ∧ entry.2 = value.2)
    named values

/-- The type is that of an element with the name; without a name it is the
default type. -/
def NumbersElement
    (catalog : Catalog)
    (name : Option String)
    (type : TypeId) : Prop :=
  ∃ given, catalog.Numbers name given ∧ type = given.getD .default

/-- A numbered name keeps its number in every later catalog. -/
theorem Numbers.mono
    {catalog later : Catalog}
    (grows : catalog.Extends later)
    {name : Option String}
    {type : Option TypeId}
    (numbers : catalog.Numbers name type) :
    later.Numbers name type := by
  cases numbers with
  | none => exact .none
  | some found => exact .some (Dictionary.number?_of_prefix grows.types found)

theorem NumbersKey.mono
    {catalog later : Catalog}
    (grows : catalog.Extends later)
    {key : String}
    {property : PropertyId}
    (numbers : catalog.NumbersKey key property) :
    later.NumbersKey key property :=
  Dictionary.number?_of_prefix grows.properties numbers

/-- Values under numbered keys keep their numbers in every later catalog. -/
theorem NumbersValues.mono
    {catalog later : Catalog}
    (grows : catalog.Extends later)
    {named : List (String × Value)}
    {values : List (PropertyId × Value)}
    (numbers : catalog.NumbersValues named values) :
    later.NumbersValues named values :=
  numbers.imp fun _ _ ⟨numbered, same⟩ => ⟨numbered.mono grows, same⟩

theorem NumbersElement.mono
    {catalog later : Catalog}
    (grows : catalog.Extends later)
    {name : Option String}
    {type : TypeId}
    (numbers : catalog.NumbersElement name type) :
    later.NumbersElement name type :=
  numbers.imp fun _ ⟨given, same⟩ => ⟨given.mono grows, same⟩

/-- Interning the name of a type extends the catalog and numbers the name. -/
theorem internType?_spec (name : Option String) (catalog : Catalog) :
    catalog.Extends (internType? name catalog).2 ∧
      (internType? name catalog).2.Numbers name
        (internType? name catalog).1 := by
  cases name with
  | none => exact ⟨.refl catalog, .none⟩
  | some name =>
      refine ⟨⟨catalog.types.prefix_intern name, List.prefix_refl _⟩, .some ?_⟩
      exact catalog.types.number?_intern name

/-- Interning a property key extends the catalog and numbers the key. -/
theorem internProperty_spec (key : String) (catalog : Catalog) :
    catalog.Extends (internProperty key catalog).2 ∧
      (internProperty key catalog).2.NumbersKey key
        (internProperty key catalog).1 :=
  ⟨⟨List.prefix_refl _, catalog.properties.prefix_intern key⟩,
    catalog.properties.number?_intern key⟩

theorem leads_internElementType (name : Option String) :
    Leads Extends (internElementType name) :=
  Leads.bind (fun catalog => (internType?_spec name catalog).1) fun _ catalog =>
    .refl catalog

/-- A look-up leaves all names as they are, also if it fails. -/
theorem leads_findElementType (name : Option String) :
    StepLeads Extends (findElementType name) := by
  refine StepLeads.bind ?_ fun _ catalog => .refl catalog
  cases name with
  | none => exact fun catalog => .refl catalog
  | some name =>
      refine StepLeads.bind (fun catalog => .refl catalog) fun known => ?_
      refine StepLeads.bind
        (fun catalog => ⟨List.prefix_refl _, List.prefix_refl _⟩) fun _ => ?_
      cases known.types.number? name <;> exact fun catalog => .refl catalog

/-- Steps that each succeed and only add names succeed one after another. -/
theorem run_mapM
    {α β : Type}
    (items : List α)
    (action : α → ExceptT Error (StateM Catalog) β)
    (Good : Catalog → α → β → Prop)
    (mono : ∀ {catalog later item found}, catalog.Extends later →
      Good catalog item found → Good later item found)
    (each : ∀ item ∈ items, ∀ catalog, ∃ found later,
      action item catalog = (.ok found, later) ∧ catalog.Extends later ∧
        Good later item found)
    (catalog : Catalog) :
    ∃ results later, items.mapM action catalog = (.ok results, later) ∧
      catalog.Extends later ∧ List.Forall₂ (Good later) items results := by
  induction items generalizing catalog with
  | nil => exact ⟨[], catalog, rfl, .refl catalog, .nil⟩
  | cons first rest inductionHypothesis =>
      obtain ⟨found, middle, run, grows, good⟩ := each first (.head _) catalog
      obtain ⟨results, later, runRest, growsMore, others⟩ :=
        inductionHypothesis (fun item member => each item (.tail _ member))
          middle
      refine ⟨found :: results, later, ?_, grows.trans growsMore,
        .cons (mono growsMore good) others⟩
      rw [List.mapM_cons, run_bind_ok run, run_bind_ok runRest]
      rfl

end Catalog

end DeltaGraph
