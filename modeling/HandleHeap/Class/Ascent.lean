import HandleHeap.Class

/-!
# Ascents

The way from a class up through its superclasses.  It passes definitions and ends at a root class,
at a name that is not defined, or at a name that it has passed before.

* `Catalog.ascent`: the definitions passed, lowest class first, and the end;
* `Catalog.isSubclass`: whether the way up from a class meets another, which settles the question
  before the end of the way is looked at.
-/

namespace HandleHeap

/-- How the way up through the superclasses ends. -/
inductive Ending where
  /-- At a class that extends none. -/
  | root
  /-- At a name that no class has. -/
  | unknown (name : String)
  /-- At a name passed before. -/
  | cyclic (name : String)
deriving DecidableEq, Repr

/-- The way up from a class. -/
structure Ascent where
  /-- The classes passed, lowest first. -/
  passed : List ClassDescription
  /-- How the way ends. -/
  ending : Ending
deriving Repr

namespace Ascent

/-- Whether the way meets a name, also as the undefined name at its end. -/
def meets (ascent : Ascent) (name : String) : Bool :=
  ascent.passed.any (·.name == name) || ascent.ending == .unknown name

/-- The classes passed, if the way ends at a root class. -/
def complete (ascent : Ascent) : Except ClassError (List ClassDescription) :=
  match ascent.ending with
  | .root => .ok ascent.passed
  | .unknown name => .error (.unknownClass name)
  | .cyclic name => .error (.cyclicHierarchy name)

end Ascent

namespace Catalog

/-- The definitions of all names but one. -/
def others (name : String) (definitions : List ClassDescription) : List ClassDescription :=
  definitions.filter (·.name != name)

theorem length_others_lt {name : String} {definitions : List ClassDescription}
    {definition : ClassDescription} (found : definitions.find? (·.name == name) = some definition) :
    (others name definitions).length < definitions.length := by
  refine List.length_filter_lt_length_iff_exists.mpr ⟨definition, ?_, ?_⟩
  · exact List.mem_of_find?_eq_some found
  · have := List.find?_some found
    simp_all

/-- The way up from `name` after `visited` has been passed.  `unseen` holds the definitions of all
other names, so that every step leaves fewer of them. -/
def ascentFrom (visited : List String) (unseen : List ClassDescription) (name : String) : Ascent :=
  if visited.contains name then
    ⟨[], .cyclic name⟩
  else
    match _ : unseen.find? (·.name == name) with
    | none => ⟨[], .unknown name⟩
    | some definition =>
      match definition.superclass with
      | none => ⟨[definition], .root⟩
      | some parent =>
        let above := ascentFrom (name :: visited) (others name unseen) parent
        ⟨definition :: above.passed, above.ending⟩
termination_by unseen.length
decreasing_by exact length_others_lt (by assumption)

/-- The way up from a class. -/
def ascent (catalog : Catalog) (name : String) : Ascent :=
  ascentFrom [] catalog.definitions name

/-- Whether a class is another or extends it, directly or not. -/
def isSubclass (catalog : Catalog) (name ancestor : String) : Except ClassError Bool :=
  let ascent := catalog.ascent name
  if ascent.meets ancestor then .ok true
  else ascent.complete.map fun _ => false

end Catalog

end HandleHeap
