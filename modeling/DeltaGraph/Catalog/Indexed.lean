import DeltaGraph.Catalog.Call
import Std.Data.ExtTreeMap

/-!
# Indexed catalogs

To find names and numbers fast, a dictionary is kept twice: the names stand in a
vector at the places of their numbers, and an index leads from each name to its
number.  Numbers are words of 32 bits.  The two are changed together, by one
insertion.
-/

namespace DeltaGraph

/-- A dictionary with an index. -/
structure IndexedDictionary where
  numbers : Std.ExtTreeMap String UInt32 := ∅
  names : Array String := #[]

namespace IndexedDictionary

/-- The number of a name, if it has one. -/
def number? (dictionary : IndexedDictionary) (name : String) : Option UInt32 :=
  dictionary.numbers[name]?

/-- The name with a number, if there is one. -/
def name? (dictionary : IndexedDictionary) (number : Nat) : Option String :=
  dictionary.names[number]?

/-- The number of names. -/
def size (dictionary : IndexedDictionary) : Nat :=
  dictionary.names.size

/-- Gives the next number to a name. -/
def insert
    (dictionary : IndexedDictionary)
    (name : String) : UInt32 × IndexedDictionary :=
  let number := UInt32.ofNat dictionary.names.size
  (number, ⟨dictionary.numbers.insert name number, dictionary.names.push name⟩)

/-- The dictionary of one name. -/
def reserving (name : String) : IndexedDictionary :=
  (insert {} name).2

/-- The number of a name, and the dictionary in which it has that number. -/
def intern
    (dictionary : IndexedDictionary)
    (name : String) : UInt32 × IndexedDictionary :=
  match dictionary.number? name with
  | some number => (number, dictionary)
  | none => dictionary.insert name

end IndexedDictionary

/-- A catalog of indexed dictionaries. -/
structure IndexedCatalog where
  types : IndexedDictionary := .reserving Catalog.defaultTypeName
  properties : IndexedDictionary := {}
  metrics : CatalogMetrics := {}

namespace IndexedCatalog

/-- The catalog that knows the default type only. -/
def empty : IndexedCatalog := {}

/-- The type with a name, which is interned if it is new.  No name stands for
any type. -/
def internType? : Option String → StateM IndexedCatalog (Option TypeId)
  | none => pure none
  | some name => modifyGet fun catalog =>
      let found := (catalog.types.number? name).isSome
      let (number, types) := catalog.types.intern name
      (some ⟨number.toNat⟩,
        { catalog with types, metrics := catalog.metrics.countIntern found })

/-- The property with a key, which is interned if it is new. -/
def internProperty (key : String) : StateM IndexedCatalog PropertyId :=
  modifyGet fun catalog =>
    let found := (catalog.properties.number? key).isSome
    let (number, properties) := catalog.properties.intern key
    (⟨number.toNat⟩,
      { catalog with properties, metrics := catalog.metrics.countIntern found })

/-- Notes a look-up that found a name or did not. -/
def noteLookup (found : Bool) : StateM IndexedCatalog Unit :=
  modify fun catalog =>
    { catalog with metrics := catalog.metrics.countLookup found }

/-- The type with a name, which has to be known.  No name stands for any
type. -/
def findType? : Option String →
    ExceptT Error (StateM IndexedCatalog) (Option TypeId)
  | none => pure none
  | some name => do
      let number? := (← get).types.number? name
      noteLookup number?.isSome
      match number? with
      | some number => return some ⟨number.toNat⟩
      | none => throw (.unknownType name)

/-- The property with a key, which has to be known. -/
def findProperty (key : String) :
    ExceptT Error (StateM IndexedCatalog) PropertyId := do
  let number? := (← get).properties.number? key
  noteLookup number?.isSome
  match number? with
  | some number => return ⟨number.toNat⟩
  | none => throw (.unknownProperty key)

/-- Answers a call. -/
def answer : CatalogCall → StateM IndexedCatalog CatalogAnswer
  | .findType name => .ofOutcome .type <$> (findType? name).run
  | .internType name => .type <$> internType? name
  | .findElementType name =>
      .ofOutcome (fun type => .elementType (type.getD .default)) <$>
        (findType? name).run
  | .internElementType name =>
      (fun type => .elementType (type.getD .default)) <$> internType? name
  | .typeName type => return .name ((← get).types.name? type.number)
  | .countTypes => return .count (← get).types.size
  | .findProperty key => .ofOutcome .property <$> (findProperty key).run
  | .internProperty key => .property <$> internProperty key
  | .propertyName property =>
      return .name ((← get).properties.name? property.number)
  | .readMetrics => return .metrics (← get).metrics

/-- The answers to calls one after another, and the catalog after them. -/
def run (catalog : IndexedCatalog) (calls : List CatalogCall) :
    List CatalogAnswer × IndexedCatalog :=
  calls.mapM answer catalog

end IndexedCatalog

end DeltaGraph
