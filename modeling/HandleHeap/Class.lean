import HandleHeap.Scalar

/-!
# Classes

Descriptions of classes by name: which class each extends and which attributes it declares.

* `Attribute`, `AttributeName`: what a class declares, and how it is referred to;
* `ClassDescription.declare`: a class with one more attribute of its own;
* `Catalog`: the known classes, the one defined last standing for its name.
-/

namespace HandleHeap

/-- What a cell of an object holds. -/
inductive Kind where
  | scalar (scalar : Scalar)
  | reference
deriving DecidableEq, Repr

namespace Kind

/-- The name of a kind. -/
def name : Kind → String
  | scalar s => s.name
  | reference => "reference"

/-- The kind with exactly this name. -/
def ofName? (text : String) : Option Kind :=
  if text = reference.name then some reference else (Scalar.ofName? text).map scalar

end Kind

/-- The full name of an attribute. -/
structure AttributeName where
  /-- The class that declares it. -/
  declaringType : String
  /-- Its name there. -/
  name : String
deriving DecidableEq, Repr

/-- The full name in words. -/
def AttributeName.text (attr : AttributeName) : String :=
  attr.declaringType ++ "#" ++ attr.name

/-- An attribute as declared. -/
structure Attribute where
  /-- The class that declares it. -/
  declaringType : String
  /-- Its name there. -/
  name : String
  /-- What it holds. -/
  kind : Kind
  /-- Whether it belongs to the class and not to its objects. -/
  isStatic : Bool
deriving DecidableEq, Repr

/-- The full name of a declared attribute. -/
def Attribute.fullName (attr : Attribute) : AttributeName :=
  ⟨attr.declaringType, attr.name⟩

/-- A class: its name, the class it extends and what it declares, in order. -/
structure ClassDescription where
  /-- The name of the class. -/
  name : String
  /-- The class it extends; a root class extends none. -/
  superclass : Option String
  /-- What it declares itself. -/
  attributes : List Attribute
deriving DecidableEq, Repr

namespace ClassDescription

/-- A root class that declares nothing. -/
def root (name : String) : ClassDescription := ⟨name, none, []⟩

/-- The class as one that extends another. -/
def extending (definition : ClassDescription) (superclass : String) : ClassDescription :=
  { definition with superclass := some superclass }

/-- The class with one more attribute, of which it is the declaring class. -/
def declare (definition : ClassDescription) (name : String) (kind : Kind) (isStatic : Bool) :
    ClassDescription :=
  { definition with
    attributes := definition.attributes ++ [⟨definition.name, name, kind, isStatic⟩] }

end ClassDescription

/-- Why a question about classes or objects was refused. -/
inductive ClassError where
  /-- No class of this name is defined. -/
  | unknownClass (name : String)
  /-- Following the superclasses leads back to this class. -/
  | cyclicHierarchy (name : String)
  /-- The class has its layout already. -/
  | alreadyRegistered (name : String)
  /-- The layout of the class has no such attribute. -/
  | missingAttribute (attr : AttributeName) (className : String)
  /-- The attribute belongs to its class and not to objects. -/
  | notAnInstanceAttribute (attr : AttributeName)
  /-- Objects of the class have no cell at this offset. -/
  | invalidOffset (className : String) (offset : Int)
  /-- The cell holds another kind. -/
  | typeMismatch (expected found : Kind)
deriving DecidableEq, Repr

/-- The wording of a refusal. -/
def ClassError.message : ClassError → String
  | unknownClass name => "Unknown class: " ++ name
  | cyclicHierarchy name => "Registration conflict: Cyclic class hierarchy at " ++ name
  | alreadyRegistered name =>
    "Registration conflict: Attributes already registered for " ++ name
  | missingAttribute attr className =>
    "Registration conflict: Inconsistent attribute registration for "
      ++ attr.text ++ " in " ++ className
  | notAnInstanceAttribute attr => "Not an instance attribute: " ++ attr.text
  | invalidOffset className offset => s!"Invalid attribute offset {offset} for " ++ className
  | typeMismatch expected found =>
    "Type mismatch: expected " ++ expected.name ++ ", found " ++ found.name

/-- The known classes, the one defined last in front. -/
structure Catalog where
  /-- All definitions ever made. -/
  definitions : List ClassDescription := []
deriving Repr

namespace Catalog

/-- A catalog without classes. -/
def empty : Catalog := {}

/-- Adds a class; it takes the place of an earlier one of the same name. -/
def define (catalog : Catalog) (definition : ClassDescription) : Catalog :=
  ⟨definition :: catalog.definitions⟩

/-- The class of a name. -/
def find? (catalog : Catalog) (name : String) : Option ClassDescription :=
  catalog.definitions.find? (·.name == name)

/-- The class of a name, which has to be known. -/
def lookup (catalog : Catalog) (name : String) : Except ClassError ClassDescription :=
  match catalog.find? name with
  | none => .error (.unknownClass name)
  | some definition => .ok definition

/-- The class that a class extends. -/
def superclass (catalog : Catalog) (name : String) : Except ClassError (Option String) :=
  (catalog.lookup name).map (·.superclass)

/-- What a class declares itself. -/
def declared (catalog : Catalog) (name : String) : Except ClassError (List Attribute) :=
  (catalog.lookup name).map (·.attributes)

end Catalog

end HandleHeap
