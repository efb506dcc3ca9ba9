import HandleHeap.Class.Layout

/-!
# The registry

Layouts that have been asked for, kept by class.  A layout is kept even if the question it was asked
for fails afterwards, so every operation returns the registry beside its outcome.

* `Registry.require`: the kept layout of a class, made on first use;
* `Registry.register`: makes a layout and refuses to make it twice;
* `Registry.offset`, `Registry.offsets`, `Registry.offsetsOf`: places of attributes.
-/

namespace HandleHeap

/-- The known classes and the layouts asked for so far. -/
structure Registry where
  /-- The known classes. -/
  catalog : Catalog
  /-- The layouts by class, the newest in front. -/
  entries : List (String × Layout) := []

namespace Registry

/-- A registry without layouts. -/
def fresh (catalog : Catalog) : Registry := { catalog := catalog }

/-- The kept layout of a class. -/
def entry? (registry : Registry) (name : String) : Option Layout :=
  registry.entries.lookup name

/-- The number of layouts kept. -/
def size (registry : Registry) : Nat := registry.entries.length

/-- Makes the layout of a class and keeps it. -/
def collect (registry : Registry) (name : String) : Except ClassError Layout × Registry :=
  match registry.catalog.layout name with
  | .error e => (.error e, registry)
  | .ok layout => (.ok layout, { registry with entries := (name, layout) :: registry.entries })

/-- The kept layout of a class, made on first use. -/
def require (registry : Registry) (name : String) : Except ClassError Layout × Registry :=
  match registry.entry? name with
  | some layout => (.ok layout, registry)
  | none => registry.collect name

/-- Makes the layout of a class that has none yet. -/
def register (registry : Registry) (name : String) : Except ClassError Layout × Registry :=
  match registry.entry? name with
  | some _ => (.error (.alreadyRegistered name), registry)
  | none => registry.collect name

/-- The place of an attribute in objects of a class. -/
def offset (registry : Registry) (name : String) (attr : AttributeName) :
    Except ClassError Nat × Registry :=
  let (layout, registry) := registry.require name
  (layout.bind fun layout => registry.catalog.offsetIn layout name attr, registry)

/-- The places of several attributes in objects of a class. -/
def offsets (registry : Registry) (name : String) (attributes : List AttributeName) :
    Except ClassError (List Nat) × Registry :=
  let (layout, registry) := registry.require name
  (layout.bind fun layout => attributes.mapM (registry.catalog.offsetIn layout name), registry)

/-- The places of several attributes in objects of their narrowest declaring type. -/
def offsetsOf (registry : Registry) (attributes : List AttributeName) :
    Except ClassError (List Nat) × Registry :=
  match registry.catalog.narrowest attributes with
  | .error e => (.error e, registry)
  | .ok none => (.ok [], registry)
  | .ok (some name) => registry.offsets name attributes

end Registry

end HandleHeap
