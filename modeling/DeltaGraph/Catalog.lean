import DeltaGraph.Error
import DeltaGraph.Binary64

/-!
# The catalog of names

Types and property keys are numbered densely in order of first use, in two
dictionaries that do not affect each other.  Type 0 is the default type.  The
catalog also counts how often names were interned and looked up.
-/

namespace DeltaGraph

/-- Names numbered in order of first use: the number of a name is its place. -/
structure Dictionary where
  names : List String
  deriving DecidableEq

namespace Dictionary

/-- The number of a name, if it has one. -/
def number? (dictionary : Dictionary) (name : String) : Option Nat :=
  dictionary.names.idxOf? name

/-- The name with a number, if there is one. -/
def name? (dictionary : Dictionary) (number : Nat) : Option String :=
  dictionary.names[number]?

/-- The number of names. -/
def size (dictionary : Dictionary) : Nat :=
  dictionary.names.length

/-- Whether a name has a number. -/
def knows (dictionary : Dictionary) (name : String) : Bool :=
  (dictionary.number? name).isSome

/-- The number of a name, and the dictionary in which it has that number: the
next one is given to a new name. -/
def intern (dictionary : Dictionary) (name : String) : Nat × Dictionary :=
  match dictionary.number? name with
  | some number => (number, dictionary)
  | none => (dictionary.size, ⟨dictionary.names ++ [name]⟩)

end Dictionary

/-- How often names were interned and looked up. -/
structure CatalogMetrics where
  interns : Nat := 0
  internsFound : Nat := 0
  internsNew : Nat := 0
  lookups : Nat := 0
  lookupsFailed : Nat := 0
  deriving DecidableEq

namespace CatalogMetrics

/-- The share of internings that found the name, and zero before the first. -/
def hitRate (metrics : CatalogMetrics) : Binary64 :=
  if metrics.interns = 0 then .zero
    else .ofRatio metrics.internsFound metrics.interns

/-- The metrics after one more interning. -/
def countIntern (metrics : CatalogMetrics) (found : Bool) : CatalogMetrics :=
  { metrics with
    interns := metrics.interns + 1
    internsFound :=
      if found then metrics.internsFound + 1 else metrics.internsFound
    internsNew := if found then metrics.internsNew else metrics.internsNew + 1 }

/-- The metrics after one more look-up. -/
def countLookup (metrics : CatalogMetrics) (found : Bool) : CatalogMetrics :=
  { metrics with
    lookups := metrics.lookups + 1
    lookupsFailed :=
      if found then metrics.lookupsFailed else metrics.lookupsFailed + 1 }

end CatalogMetrics

/-- The names of types and property keys, and how they were used. -/
structure Catalog where
  types : Dictionary := ⟨["_default"]⟩
  properties : Dictionary := ⟨[]⟩
  metrics : CatalogMetrics := {}
  deriving DecidableEq

namespace Catalog

/-- The catalog that knows the default type only. -/
def empty : Catalog := {}

/-- The type with a name, which is interned if it is new.  No name stands for
any type. -/
def internType? : Option String → StateM Catalog (Option TypeId)
  | none => pure none
  | some name => modifyGet fun catalog =>
      let (number, types) := catalog.types.intern name
      let metrics := catalog.metrics.countIntern (catalog.types.knows name)
      (some ⟨number⟩, { catalog with types, metrics })

/-- The property with a key, which is interned if it is new. -/
def internProperty (key : String) : StateM Catalog PropertyId :=
  modifyGet fun catalog =>
    let (number, properties) := catalog.properties.intern key
    let metrics := catalog.metrics.countIntern (catalog.properties.knows key)
    (⟨number⟩, { catalog with properties, metrics })

/-- The type of a new element: the named one, or the default type. -/
def internElementType (name : Option String) : StateM Catalog TypeId :=
  return (← internType? name).getD .default

/-- Notes a look-up that found a name or did not. -/
def noteLookup (found : Bool) : StateM Catalog Unit :=
  modify fun catalog =>
    { catalog with metrics := catalog.metrics.countLookup found }

/-- The type with a name, which has to be known.  No name stands for any
type. -/
def findType? : Option String → ExceptT Error (StateM Catalog) (Option TypeId)
  | none => pure none
  | some name => do
      let number? := (← get).types.number? name
      noteLookup number?.isSome
      match number? with
      | some number => return some ⟨number⟩
      | none => throw (.unknownType name)

/-- The property with a key, which has to be known. -/
def findProperty (key : String) :
    ExceptT Error (StateM Catalog) PropertyId := do
  let number? := (← get).properties.number? key
  noteLookup number?.isSome
  match number? with
  | some number => return ⟨number⟩
  | none => throw (.unknownProperty key)

/-- The type of an element that exists: the named one, which has to be known,
or the default type. -/
def findElementType (name : Option String) :
    ExceptT Error (StateM Catalog) TypeId :=
  return (← findType? name).getD .default

/-- The name of a type. -/
def typeName? (catalog : Catalog) (type : TypeId) : Option String :=
  catalog.types.name? type.number

/-- The key of a property. -/
def propertyName? (catalog : Catalog) (property : PropertyId) : Option String :=
  catalog.properties.name? property.number

end Catalog

end DeltaGraph
