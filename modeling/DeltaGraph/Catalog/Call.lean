import DeltaGraph.Catalog

/-!
# Calls of a catalog

Everything that is asked of a catalog is one of a few calls: names are interned,
looked up, or read back from their numbers, and the counters are read.  A run of
calls gives one answer for each.
-/

namespace DeltaGraph

/-- What can be asked of a catalog. -/
inductive CatalogCall
  /-- The type with a name, which has to be known. -/
  | findType (name : Option String)
  /-- The type with a name, which is interned. -/
  | internType (name : Option String)
  /-- The type of an element that exists. -/
  | findElementType (name : Option String)
  /-- The type of a new element. -/
  | internElementType (name : Option String)
  | typeName (type : TypeId)
  | countTypes
  /-- The property with a key, which has to be known. -/
  | findProperty (key : String)
  /-- The property with a key, which is interned. -/
  | internProperty (key : String)
  | propertyName (property : PropertyId)
  | readMetrics
  deriving DecidableEq

/-- What a catalog answers. -/
inductive CatalogAnswer
  | type (type : Option TypeId)
  | elementType (type : TypeId)
  | property (property : PropertyId)
  | name (name : Option String)
  | count (count : Nat)
  | metrics (metrics : CatalogMetrics)
  | failure (error : Error)
  deriving DecidableEq

namespace CatalogAnswer

/-- The answer to a call that may fail. -/
def ofOutcome
    {α : Type}
    (answer : α → CatalogAnswer) : Except Error α → CatalogAnswer
  | .ok value => answer value
  | .error error => failure error

/-- Whether the call failed. -/
def failed : CatalogAnswer → Bool
  | failure _ => true
  | _ => false

end CatalogAnswer

namespace Catalog

/-- The name of the type that elements without a type have. -/
def defaultTypeName : String := "_default"

/-- Answers a call. -/
def answer : CatalogCall → StateM Catalog CatalogAnswer
  | .findType name => .ofOutcome .type <$> (findType? name).run
  | .internType name => .type <$> internType? name
  | .findElementType name =>
      .ofOutcome .elementType <$> (findElementType name).run
  | .internElementType name => .elementType <$> internElementType name
  | .typeName type => return .name ((← get).typeName? type)
  | .countTypes => return .count (← get).types.size
  | .findProperty key => .ofOutcome .property <$> (findProperty key).run
  | .internProperty key => .property <$> internProperty key
  | .propertyName property => return .name ((← get).propertyName? property)
  | .readMetrics => return .metrics (← get).metrics

/-- The answers to calls one after another, and the catalog after them. -/
def run
    (catalog : Catalog)
    (calls : List CatalogCall) : List CatalogAnswer × Catalog :=
  calls.mapM answer catalog

end Catalog

namespace CatalogCall

/-- The name of a type that a call interns. -/
def internedType? : CatalogCall → Option String
  | internType name => name
  | internElementType name => name
  | _ => none

/-- The key that a call interns. -/
def internedKey? : CatalogCall → Option String
  | internProperty key => some key
  | _ => none

/-- The name or key that a call looks up. -/
def soughtName? : CatalogCall → Option String
  | findType name => name
  | findElementType name => name
  | findProperty key => some key
  | _ => none

/-- Whether a call interns a name or a key. -/
def interns (call : CatalogCall) : Bool :=
  call.internedType?.isSome || call.internedKey?.isSome

/-- Whether a call looks a name or a key up. -/
def looksUp (call : CatalogCall) : Bool :=
  call.soughtName?.isSome

/-- The name and the type that a call and its answer put together. -/
def namedType? : CatalogCall → CatalogAnswer → Option (String × TypeId)
  | findType (some name), .type (some type) => some (name, type)
  | internType (some name), .type (some type) => some (name, type)
  | findElementType name, .elementType type =>
      some (name.getD Catalog.defaultTypeName, type)
  | internElementType name, .elementType type =>
      some (name.getD Catalog.defaultTypeName, type)
  | typeName type, .name (some name) => some (name, type)
  | _, _ => none

/-- The key and the property that a call and its answer put together. -/
def keyedProperty? : CatalogCall → CatalogAnswer → Option (String × PropertyId)
  | findProperty key, .property property => some (key, property)
  | internProperty key, .property property => some (key, property)
  | propertyName property, .name (some key) => some (key, property)
  | _, _ => none

end CatalogCall

end DeltaGraph
