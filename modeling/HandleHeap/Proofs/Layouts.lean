import HandleHeap.Class.Layout
import HandleHeap.Proofs.Ascents

/-!
# Layouts along a class hierarchy

The layout of a class only adds to the end of the layout of the class that it extends, since the
attributes of superclasses are laid out first and none is ever moved.

* `Layout.ofDeclarations_prefix`: more declarations make a longer layout with the same beginning;
* `Catalog.instanceAttribute?`: the attribute that a full name stands for in objects of a class;
* `Layout.exists_getElem?_of_indexOf?`: it is the one at the place of the name;
* `Catalog.layout_of_inherits`: the layout of a class begins with those of its superclasses;
* `Catalog.offsetIn_of_prefix`: a place stays what it is in a longer layout.
-/

namespace HandleHeap

namespace Layout

variable {layout longer : Layout}

theorem prefix_add (layout : Layout) (attr : Attribute) : layout <+: layout.add attr := by
  unfold add
  split
  · exact List.prefix_refl _
  · exact List.prefix_append _ _

theorem prefix_foldl_add (layout : Layout) (declarations : List Attribute) :
    layout <+: declarations.foldl add layout := by
  induction declarations generalizing layout with
  | nil => exact List.prefix_refl _
  | cons attr rest ih => exact (layout.prefix_add attr).trans (ih _)

theorem ofDeclarations_prefix {declarations more : List Attribute} (h : declarations <+: more) :
    ofDeclarations declarations <+: ofDeclarations more := by
  obtain ⟨rest, rfl⟩ := h
  unfold ofDeclarations
  rw [List.foldl_append]
  exact prefix_foldl_add _ _

/-! ### Places -/

theorem indexOf?_of_prefix (h : layout <+: longer) {name : AttributeName} {offset : Nat}
    (hoffset : layout.indexOf? name = some offset) : longer.indexOf? name = some offset := by
  obtain ⟨rest, rfl⟩ := h
  unfold indexOf? at hoffset ⊢
  rw [List.findIdx?_append, hoffset]
  rfl

theorem find?_add (layout : Layout) (attr : Attribute) (name : AttributeName) :
    (layout.add attr).find? (·.fullName == name) = (layout.find? (·.fullName == name)).or
      (if !attr.isStatic && attr.fullName == name then some attr else none) := by
  unfold add
  by_cases hstatic : attr.isStatic = true
  · simp [hstatic]
  by_cases hcontains : layout.contains attr.fullName = true
  · rw [if_pos (by rw [hcontains, Bool.or_true])]
    by_cases hname : attr.fullName = name
    · -- the name has a place already
      obtain ⟨first, hmem, hfirst⟩ := List.any_eq_true.mp hcontains
      rw [hname] at hfirst
      have hsome : (layout.find? (·.fullName == name)).isSome = true :=
        List.find?_isSome.mpr ⟨first, hmem, hfirst⟩
      rw [Option.or_of_isSome hsome]
    · simp [hname]
  · rw [if_neg (by simp [hstatic, hcontains]), List.find?_append, List.find?_singleton]
    simp [hstatic]

/-- A full name stands for the first instance attribute that is declared by it. -/
theorem find?_ofDeclarations (declarations : List Attribute) (name : AttributeName) :
    (ofDeclarations declarations).find? (·.fullName == name)
      = declarations.find? fun attr => !attr.isStatic && attr.fullName == name := by
  have hfold : ∀ layout : Layout,
      (declarations.foldl add layout).find? (·.fullName == name)
        = (layout.find? (·.fullName == name)).or
          (declarations.find? fun attr => !attr.isStatic && attr.fullName == name) := by
    induction declarations with
    | nil => intro layout; exact (Option.or_none).symm
    | cons attr rest ih =>
      intro layout
      rw [List.foldl_cons, ih, find?_add, Option.or_assoc, List.find?_cons]
      rcases !attr.isStatic && attr.fullName == name with _ | _ <;> rfl
  exact hfold []

/-- The place of a name holds the attribute that the name stands for. -/
theorem exists_getElem?_of_indexOf? {name : AttributeName} {offset : Nat}
    (h : layout.indexOf? name = some offset) : ∃ attr, layout[offset]? = some attr ∧
      attr.fullName = name ∧ layout.find? (·.fullName == name) = some attr := by
  obtain ⟨hlt, hname, hfirst⟩ := List.findIdx?_eq_some_iff_getElem.mp h
  refine ⟨layout[offset], List.getElem?_eq_getElem hlt, beq_iff_eq.mp hname, ?_⟩
  refine List.find?_eq_some_iff_getElem.mpr ⟨hname, offset, hlt, rfl, fun i hi => ?_⟩
  simpa using hfirst i hi

end Layout

namespace Catalog

variable {catalog : Catalog} {name other : String}

/-! ### Layouts of superclasses -/

/-- All that is declared on the way down to a class, by the root class first. -/
def declarations (catalog : Catalog) (name : String) : List Attribute :=
  (catalog.ascent name).passed.reverse.flatMap (·.attributes)

/-- The attribute that a full name stands for in objects of a class: the first one of that name
which is declared on the way down to the class and is not static. -/
def instanceAttribute? (catalog : Catalog) (name : String) (attr : AttributeName) :
    Option Attribute :=
  (catalog.declarations name).find? fun declared => !declared.isStatic && declared.fullName == attr

theorem layout_eq_ok_iff {layout : Layout} : catalog.layout name = .ok layout ↔
    ∃ passed, catalog.Path name passed none ∧
      layout = Layout.ofDeclarations (passed.reverse.flatMap (·.attributes)) := by
  unfold Catalog.layout
  constructor
  · intro h
    rcases hcomplete : (catalog.ascent name).complete with e | passed
    · rw [hcomplete] at h
      cases h
    · rw [hcomplete] at h
      exact ⟨passed, complete_ascent_iff.mp hcomplete, (Except.ok.inj h).symm⟩
  · rintro ⟨passed, hpath, rfl⟩
    rw [complete_ascent_iff.mpr hpath]
    rfl

theorem layout_eq_ofDeclarations {layout : Layout} (h : catalog.layout name = .ok layout) :
    layout = Layout.ofDeclarations (catalog.declarations name) := by
  obtain ⟨passed, hpath, rfl⟩ := layout_eq_ok_iff.mp h
  have hcomplete := complete_ascent_iff.mpr hpath
  unfold Ascent.complete at hcomplete
  unfold declarations
  split at hcomplete
  · rw [Except.ok.inj hcomplete]
  · cases hcomplete
  · cases hcomplete

/-- **The layout of a class begins with those of its superclasses**, which have one as well. -/
theorem layout_of_inherits (h : catalog.Inherits name other) {layout : Layout}
    (hlayout : catalog.layout name = .ok layout) :
    ∃ inherited : Layout, catalog.layout other = .ok inherited ∧ inherited <+: layout := by
  obtain ⟨passed, hpath, rfl⟩ := layout_eq_ok_iff.mp hlayout
  obtain ⟨below, hbelow⟩ := h.exists_path
  obtain ⟨rest, rfl, hrest⟩ := hpath.exists_rest hbelow
  refine ⟨_, layout_eq_ok_iff.mpr ⟨rest, hrest, rfl⟩, Layout.ofDeclarations_prefix ?_⟩
  rw [List.reverse_append, List.flatMap_append]
  exact List.prefix_append _ _

/-! ### Places in a layout -/

theorem offsetIn_eq_ok_iff {layout : Layout} {attr : AttributeName} {offset : Nat} :
    catalog.offsetIn layout name attr = .ok offset ↔
      catalog.checkInstance attr = .ok () ∧ layout.indexOf? attr = some offset := by
  unfold offsetIn
  rcases catalog.checkInstance attr with e | _
  · exact ⟨nofun, fun h => nomatch h.1⟩
  rcases layout.indexOf? attr with _ | place
  · exact ⟨nofun, fun h => nomatch h.2⟩
  · exact ⟨fun h => ⟨rfl, congrArg some (Except.ok.inj h)⟩,
      fun h => congrArg Except.ok (Option.some.inj h.2)⟩

/-- A place stays what it is in a longer layout. -/
theorem offsetIn_of_prefix {layout longer : Layout} (h : layout <+: longer) {attr : AttributeName}
    {offset : Nat} (hoffset : catalog.offsetIn layout name attr = .ok offset) :
    catalog.offsetIn longer other attr = .ok offset := by
  obtain ⟨hcheck, hindex⟩ := offsetIn_eq_ok_iff.mp hoffset
  exact offsetIn_eq_ok_iff.mpr ⟨hcheck, Layout.indexOf?_of_prefix h hindex⟩

end Catalog

end HandleHeap
