import Mathlib
import HandleHeap.Class.Ascent

/-!
# Ways up a class hierarchy

Every class extends one other at most, so there is one way up from it.  It either comes past a root
class, or comes to a name that is not defined, or goes round for ever; an ascent follows it until
one of these is plain.

* `Catalog.Inherits`: a class and those it extends, directly or not, itself among them;
* `Catalog.Path`: a stretch of the way up, with the definitions passed and the name come to;
* `Catalog.Path.exists_rest`, `Catalog.Path.unique`: there is one way up;
* `Catalog.ascentFrom_spec`: an ascent is a path, and its ending is true of it;
* `Catalog.complete_ascent_iff`: it is complete exactly if the way comes past a root class.
-/

namespace HandleHeap

namespace Catalog

variable {catalog : Catalog}

/-- A class extends another directly. -/
def Extends (catalog : Catalog) (name parent : String) : Prop :=
  catalog.superclass name = .ok (some parent)

/-- A class is another, or extends it directly or through others. -/
def Inherits (catalog : Catalog) : String → String → Prop :=
  Relation.ReflTransGen catalog.Extends

theorem name_of_find? {name : String} {definition : ClassDescription}
    (h : catalog.find? name = some definition) : definition.name = name := by
  have hname := List.find?_some h
  rwa [beq_iff_eq] at hname

theorem extends_iff {name parent : String} : catalog.Extends name parent ↔
    ∃ definition, catalog.find? name = some definition ∧
      definition.superclass = some parent := by
  unfold Extends superclass lookup
  rcases catalog.find? name with _ | definition
  · exact ⟨nofun, nofun⟩
  · exact ⟨fun h => ⟨definition, rfl, Except.ok.inj h⟩, fun ⟨_, hfound, hparent⟩ => by
      cases hfound
      exact congrArg Except.ok hparent⟩

/-! ### Paths -/

/-- A stretch of the way up from a name: the definitions that it passes, lowest class first, and the
name that it comes to, or none if it comes past a root class. -/
inductive Path (catalog : Catalog) : String → List ClassDescription → Option String → Prop where
  | here (name : String) : Path catalog name [] (some name)
  | root {name : String} {definition : ClassDescription}
      (found : catalog.find? name = some definition) (top : definition.superclass = none) :
      Path catalog name [definition] none
  | up {name parent : String} {definition : ClassDescription} {passed : List ClassDescription}
      {stop : Option String} (found : catalog.find? name = some definition)
      (parent_eq : definition.superclass = some parent) (above : Path catalog parent passed stop) :
      Path catalog name (definition :: passed) stop

namespace Path

variable {name other : String} {passed others : List ClassDescription} {stop : Option String}

/-- A way past a root class goes on from every name that it comes to. -/
theorem exists_rest (h : catalog.Path name passed none)
    (h' : catalog.Path name others (some other)) :
    ∃ rest, passed = others ++ rest ∧ catalog.Path other rest none := by
  generalize hstop : some other = stop at h'
  induction h' generalizing passed with
  | here => cases hstop; exact ⟨passed, rfl, h⟩
  | root => cases hstop
  | up found parent_eq _ ih =>
    cases h with
    | root found' top =>
      cases found.symm.trans found'
      cases parent_eq.symm.trans top
    | up found' parent_eq' above =>
      cases found.symm.trans found'
      cases parent_eq.symm.trans parent_eq'
      obtain ⟨rest, rfl, hrest⟩ := ih above hstop
      exact ⟨rest, rfl, hrest⟩

/-- There is one way past a root class. -/
theorem unique (h : catalog.Path name passed none) (h' : catalog.Path name others none) :
    passed = others := by
  generalize hstop : (none : Option String) = stop at h
  induction h generalizing others with
  | here => cases hstop
  | root found top =>
    cases h' with
    | root found' _ => cases found.symm.trans found'; rfl
    | up found' parent_eq _ =>
      cases found.symm.trans found'
      cases parent_eq.symm.trans top
  | up found parent_eq _ ih =>
    cases h' with
    | root found' top =>
      cases found.symm.trans found'
      cases parent_eq.symm.trans top
    | up found' parent_eq' above =>
      cases found.symm.trans found'
      cases parent_eq.symm.trans parent_eq'
      rw [ih above hstop]

/-- From a class that has been passed the way goes on to the same end. -/
theorem exists_of_mem (h : catalog.Path name passed stop)
    (hmem : other ∈ passed.map ClassDescription.name) :
    ∃ rest, rest ≠ [] ∧ catalog.Path other rest stop := by
  induction h with
  | here => cases hmem
  | root found top =>
    rw [List.map_singleton, List.mem_singleton, name_of_find? found] at hmem
    subst hmem
    exact ⟨_, List.cons_ne_nil _ _, .root found top⟩
  | up found parent_eq above ih =>
    rw [List.map_cons, List.mem_cons, name_of_find? found] at hmem
    rcases hmem with rfl | hmem
    · exact ⟨_, List.cons_ne_nil _ _, .up found parent_eq above⟩
    · exact ih hmem

/-- The way past a root class does not come round. -/
theorem not_mem_of_none (h : catalog.Path other others none)
    (hround : catalog.Path name passed (some other)) :
    other ∉ passed.map ClassDescription.name := by
  intro hmem
  -- the way round from the name to itself could be taken off the way past the root
  obtain ⟨round, hne, hagain⟩ := hround.exists_of_mem hmem
  obtain ⟨rest, hsplit, hrest⟩ := h.exists_rest hagain
  have hlength := congrArg List.length hsplit
  rw [h.unique hrest, List.length_append] at hlength
  exact hne (List.eq_nil_of_length_eq_zero (by omega))

end Path

theorem Inherits.exists_path {name other : String} (h : catalog.Inherits name other) :
    ∃ passed, catalog.Path name passed (some other) := by
  induction h using Relation.ReflTransGen.head_induction_on with
  | refl => exact ⟨[], .here _⟩
  | head hstep _ ih =>
    obtain ⟨definition, found, parent_eq⟩ := extends_iff.mp hstep
    obtain ⟨passed, hpath⟩ := ih
    exact ⟨definition :: passed, .up found parent_eq hpath⟩

end Catalog

/-! ### Ascents -/

namespace Ending

/-- The name at which a way ends, if it ends at one. -/
def stop : Ending → Option String
  | root => none
  | unknown name | cyclic name => some name

/-- What an ending says of the way that it ends, which begins after some names. -/
def Holds (catalog : Catalog) (visited : List String) (passed : List ClassDescription) :
    Ending → Prop
  | root => True
  | unknown name => catalog.find? name = none
  | cyclic name => name ∈ visited ∨ name ∈ passed.map ClassDescription.name

end Ending

namespace Catalog

variable {catalog : Catalog}

theorem find?_others {name other : String} (hne : other ≠ name)
    (definitions : List ClassDescription) :
    (others name definitions).find? (·.name == other) = definitions.find? (·.name == other) := by
  unfold others
  rw [List.find?_filter]
  refine congrArg (fun p => definitions.find? p) (funext fun definition => ?_)
  by_cases hname : definition.name = other
  · simp [hname, hne]
  · simp [hname]

/-- **An ascent is a path**, and its ending is true of it. -/
theorem ascentFrom_spec (visited : List String) (unseen : List ClassDescription) (name : String)
    (h : ∀ other, other ∉ visited → unseen.find? (·.name == other) = catalog.find? other) :
    catalog.Path name (ascentFrom visited unseen name).passed
        (ascentFrom visited unseen name).ending.stop ∧
      (ascentFrom visited unseen name).ending.Holds catalog visited
        (ascentFrom visited unseen name).passed := by
  fun_induction ascentFrom visited unseen name with
  | case1 visited unseen name hvisited =>
    exact ⟨.here name, Or.inl (List.contains_iff_mem.mp hvisited)⟩
  | case2 visited unseen name hvisited hnone =>
    rw [List.contains_iff_mem] at hvisited
    exact ⟨.here name, (h name hvisited).symm.trans hnone⟩
  | case3 visited unseen name hvisited definition hfound htop =>
    rw [List.contains_iff_mem] at hvisited
    exact ⟨.root ((h name hvisited).symm.trans hfound) htop, trivial⟩
  | case4 visited unseen name hvisited definition hfound parent hparent above ih =>
    rw [List.contains_iff_mem] at hvisited
    have hdefinition := (h name hvisited).symm.trans hfound
    obtain ⟨hpath, hends⟩ := ih fun other hother => by
      rw [List.mem_cons, not_or] at hother
      rw [find?_others hother.1, h other hother.2]
    refine ⟨.up hdefinition hparent hpath, ?_⟩
    rcases hending : above.ending with _ | stop | stop
    · trivial
    · rw [hending] at hends
      exact hends
    · rw [hending] at hends
      change stop ∈ name :: visited ∨ stop ∈ above.passed.map ClassDescription.name at hends
      change stop ∈ visited ∨ stop ∈ (definition :: above.passed).map ClassDescription.name
      rw [List.map_cons, List.mem_cons, name_of_find? hdefinition]
      rw [List.mem_cons] at hends
      tauto

theorem ascent_spec (catalog : Catalog) (name : String) :
    catalog.Path name (catalog.ascent name).passed (catalog.ascent name).ending.stop ∧
      (catalog.ascent name).ending.Holds catalog [] (catalog.ascent name).passed :=
  ascentFrom_spec [] catalog.definitions name fun _ _ => rfl

/-- **An ascent is complete exactly if the way up comes past a root class.** -/
theorem complete_ascent_iff {name : String} {passed : List ClassDescription} :
    (catalog.ascent name).complete = .ok passed ↔ catalog.Path name passed none := by
  obtain ⟨hpath, hends⟩ := catalog.ascent_spec name
  unfold Ascent.complete
  rcases hending : (catalog.ascent name).ending with _ | stop | stop
  · rw [hending] at hpath
    constructor
    · intro h
      cases h
      exact hpath
    · intro h
      exact congrArg Except.ok (hpath.unique h)
  · rw [hending] at hpath hends
    refine ⟨nofun, fun h => ?_⟩
    obtain ⟨rest, -, hrest⟩ := h.exists_rest hpath
    have hnone : catalog.find? stop = none := hends
    cases hrest with
    | root found _ => cases hnone.symm.trans found
    | up found _ _ => cases hnone.symm.trans found
  · rw [hending] at hpath hends
    refine ⟨nofun, fun h => ?_⟩
    obtain ⟨rest, -, hrest⟩ := h.exists_rest hpath
    exact absurd (hends.resolve_left List.not_mem_nil) (hrest.not_mem_of_none hpath)

end Catalog

end HandleHeap
