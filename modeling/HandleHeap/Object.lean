import HandleHeap.Class.Registry
import HandleHeap.Text.Quoted

/-!
# Objects

An object has one cell for each attribute of its class's layout.  A cell keeps the kind it was made
with.

* `Object.get`, `Object.set`: a cell by its offset; the offset is checked before the kind;
* `Object.getAs`: a cell whose kind is known;
* `ObjectStore`: the objects made so far, by number.
-/

namespace HandleHeap

/-- The number of an object. -/
abbrev ObjectId := Nat

/-- What a cell can hold. -/
inductive Value where
  | scalar (scalar : Scalar) (value : scalar.Value)
  | reference (target : Option ObjectId)
deriving DecidableEq

namespace Value

/-- The kind of a value. -/
def kind : Value → Kind
  | scalar s _ => .scalar s
  | reference _ => .reference

/-- The value that a cell of a kind starts with. -/
def zero : Kind → Value
  | .scalar s => .scalar s s.zero
  | .reference => .reference none

end Value

/-- The class of an object and its cells. -/
structure Object where
  /-- The class. -/
  className : String
  /-- One value for each attribute. -/
  cells : List Value
deriving DecidableEq

namespace Object

/-- An object of zeros. -/
def fresh (className : String) (layout : Layout) : Object :=
  ⟨className, layout.map fun attr => Value.zero attr.kind⟩

/-- The number of cells. -/
def size (object : Object) : Nat := object.cells.length

/-- The cell index that an offset stands for. -/
def index (object : Object) (offset : Int) : Except ClassError (Fin object.cells.length) :=
  if inside : 0 ≤ offset ∧ offset.toNat < object.cells.length then
    .ok ⟨offset.toNat, inside.2⟩
  else
    .error (.invalidOffset object.className offset)

/-- The value of a cell. -/
def get (object : Object) (offset : Int) : Except ClassError Value :=
  (object.index offset).map fun i => object.cells[i]

/-- Replaces the value of a cell by one of the same kind. -/
def set (object : Object) (offset : Int) (value : Value) : Except ClassError Object := do
  let i ← object.index offset
  if object.cells[i].kind = value.kind then
    return { object with cells := object.cells.set i value }
  else
    throw (.typeMismatch object.cells[i].kind value.kind)

/-- The value of a cell that has to be of a kind. -/
def getAs (object : Object) (kind : Kind) (offset : Int) : Except ClassError Value := do
  let value ← object.get offset
  if value.kind = kind then return value else throw (.typeMismatch kind value.kind)

/-- The object in words: its class, quoted, and the number of its cells. -/
def text (object : Object) : String :=
  "Object \x7b class: " ++ Text.quoted object.className
    ++ s!", attributes: {object.size}" ++ " \x7d"

end Object

/-- The objects made so far; references name them by number. -/
structure ObjectStore where
  /-- The objects by number. -/
  objects : Array Object := #[]

namespace ObjectStore

/-- Adds an object and gives it the next number. -/
def add (store : ObjectStore) (object : Object) : ObjectId × ObjectStore :=
  (store.objects.size, ⟨store.objects.push object⟩)

/-- The object of a number. -/
def find? (store : ObjectStore) (id : ObjectId) : Option Object := store.objects[id]?

/-- Replaces the object of a number. -/
def replace (store : ObjectStore) (id : ObjectId) (object : Object) : ObjectStore :=
  ⟨store.objects.setIfInBounds id object⟩

end ObjectStore

/-- Makes an object of a class. -/
def Registry.instantiate (registry : Registry) (name : String) :
    Except ClassError Object × Registry :=
  let (layout, registry) := registry.require name
  (layout.map (Object.fresh name), registry)

end HandleHeap
