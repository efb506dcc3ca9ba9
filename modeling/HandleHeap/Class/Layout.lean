import HandleHeap.Class.Ascent

/-!
# Layouts

The order in which the attributes of an object lie: those of the root class first, each class in
the order of its declarations.  Static attributes have no place, and a full name has one place only.
An offset is an index into this order.

* `Layout.ofDeclarations`: the layout of declarations in order;
* `Catalog.layout`: the layout of a class;
* `Catalog.offsetIn`: the place of an attribute in a layout.
-/

namespace HandleHeap

/-- The attributes of an object, in order. -/
abbrev Layout := List Attribute

namespace Layout

/-- Whether a full name has a place. -/
def contains (layout : Layout) (name : AttributeName) : Bool :=
  layout.any (·.fullName == name)

/-- Gives an attribute the next place unless it is static or its name has one. -/
def add (layout : Layout) (attr : Attribute) : Layout :=
  if attr.isStatic || layout.contains attr.fullName then layout
  else layout ++ [attr]

/-- The layout of declarations in order. -/
def ofDeclarations (declarations : List Attribute) : Layout :=
  declarations.foldl add []

/-- The place of a full name. -/
def indexOf? (layout : Layout) (name : AttributeName) : Option Nat :=
  layout.findIdx? (·.fullName == name)

end Layout

namespace Catalog

/-- The layout of a class. -/
def layout (catalog : Catalog) (name : String) : Except ClassError Layout :=
  (catalog.ascent name).complete.map fun passed =>
    Layout.ofDeclarations (passed.reverse.flatMap (·.attributes))

/-- Accepts attributes that their class does not declare static. -/
def checkInstance (catalog : Catalog) (attr : AttributeName) : Except ClassError Unit := do
  let declared ← catalog.declared attr.declaringType
  if declared.any fun declaration => declaration.fullName == attr && declaration.isStatic then
    throw (.notAnInstanceAttribute attr)

/-- The place of an attribute in the layout of `className`. -/
def offsetIn (catalog : Catalog) (layout : Layout) (className : String)
    (attr : AttributeName) : Except ClassError Nat := do
  catalog.checkInstance attr
  match layout.indexOf? attr with
  | none => throw (.missingAttribute attr className)
  | some offset => return offset

/-- The class among the declaring types that extends the others, as far as the order shows: each
type that differs from the one held and extends it takes its place. -/
def narrowest (catalog : Catalog) : List AttributeName → Except ClassError (Option String)
  | [] => .ok none
  | first :: rest => do
    let narrow (held : String) (attr : AttributeName) : Except ClassError String := do
      let candidate := attr.declaringType
      if candidate = held then return held
      else if ← catalog.isSubclass candidate held then return candidate
      else return held
    return some (← rest.foldlM narrow first.declaringType)

end Catalog

end HandleHeap
