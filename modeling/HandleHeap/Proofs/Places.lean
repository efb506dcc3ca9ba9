import HandleHeap.Proofs.Collections
import HandleHeap.Proofs.Outcomes

/-!
# Places of attributes

The place of an attribute in objects of a class is looked up in two parts of a catalog: the layout
of the class, and the declarations of the class that the attribute names, which need not be on the
way up from the first.  Four things can be wrong, and the first of them is answered.

* `Catalog.Resolves`: what the place of an attribute is answered, with the five ways to come to it;
* `Layout.Proper.indexOf?_eq_some_iff`: in a layout a full name has one place, and is found there;
* `Catalog.resolves_iff`: the five ways are those of the look-up;
* `Registry.LocatesAttributes`, `Registry.locatesAttributes_after`: what a registry answers that
  has been in use.
-/

namespace HandleHeap

/-! ### Answers -/

/-- A class declares a static attribute of this full name. -/
def ClassDescription.DeclaresStatic (definition : ClassDescription) (attr : AttributeName) : Prop :=
  ∃ declared ∈ definition.attributes, declared.fullName = attr ∧ declared.isStatic = true

/-- What the place of an attribute in objects of a class is answered. -/
inductive Catalog.Resolves (catalog : Catalog) (name : String) (attr : AttributeName) :
    Except ClassError Nat → Prop where
  | uncollected {e : ClassError} (failed : catalog.layout name = .error e) :
      Resolves catalog name attr (.error e)
  | undefined {layout : Layout} (collected : catalog.layout name = .ok layout)
      (unknown : catalog.find? attr.declaringType = none) :
      Resolves catalog name attr (.error (.unknownClass attr.declaringType))
  | static {layout : Layout} {definition : ClassDescription}
      (collected : catalog.layout name = .ok layout)
      (found : catalog.find? attr.declaringType = some definition)
      (static : definition.DeclaresStatic attr) :
      Resolves catalog name attr (.error (.notAnInstanceAttribute attr))
  | missing {layout : Layout} {definition : ClassDescription}
      (collected : catalog.layout name = .ok layout)
      (found : catalog.find? attr.declaringType = some definition)
      (inst : ¬ definition.DeclaresStatic attr) (absent : ∀ entry ∈ layout, entry.fullName ≠ attr) :
      Resolves catalog name attr (.error (.missingAttribute attr name))
  | place {layout : Layout} {definition : ClassDescription} {entry : Attribute} {i : Nat}
      (collected : catalog.layout name = .ok layout)
      (found : catalog.find? attr.declaringType = some definition)
      (inst : ¬ definition.DeclaresStatic attr) (entry_eq : layout[i]? = some entry)
      (fullName_eq : entry.fullName = attr) : Resolves catalog name attr (.ok i)

namespace Layout

variable {layout : Layout} {attr : AttributeName} {i j : Nat} {entry other : Attribute}

/-! ### Places in a layout -/

theorem indexOf?_eq_none_iff :
    layout.indexOf? attr = none ↔ ∀ entry ∈ layout, entry.fullName ≠ attr := by
  unfold indexOf?
  rw [List.findIdx?_eq_none_iff]
  exact forall₂_congr fun entry _ => beq_eq_false_iff_ne

/-- No full name has two places. -/
theorem Proper.eq_of_fullName_eq (hp : layout.Proper) (h : layout[i]? = some entry)
    (h' : layout[j]? = some other) (hname : entry.fullName = other.fullName) : i = j := by
  have hi : (layout.map Attribute.fullName)[i]? = some entry.fullName := by
    rw [List.getElem?_map, h]
    rfl
  have hj : (layout.map Attribute.fullName)[j]? = some entry.fullName := by
    rw [List.getElem?_map, h', hname]
    rfl
  obtain ⟨hinside, -⟩ := List.getElem?_eq_some_iff.mp hi
  exact (List.getElem?_inj hinside hp.nodup).mp (hi.trans hj.symm)

/-- **A full name is found at its place.** -/
theorem Proper.indexOf?_eq_some_iff (hp : layout.Proper) : layout.indexOf? attr = some i ↔
    ∃ entry, layout[i]? = some entry ∧ entry.fullName = attr := by
  constructor
  · intro h
    obtain ⟨entry, hentry, hname, -⟩ := exists_getElem?_of_indexOf? h
    exact ⟨entry, hentry, hname⟩
  · rintro ⟨entry, hentry, hname⟩
    rcases hindex : layout.indexOf? attr with _ | j
    · exact absurd hname (indexOf?_eq_none_iff.mp hindex entry (List.mem_of_getElem? hentry))
    · obtain ⟨first, hfirst, hsame, -⟩ := exists_getElem?_of_indexOf? hindex
      rw [hp.eq_of_fullName_eq hentry hfirst (hname.trans hsame.symm)]

end Layout

namespace Catalog

variable {catalog : Catalog} {name : String} {attr : AttributeName} {definition : ClassDescription}

/-! ### The look-up -/

theorem checkInstance_of_unknown (h : catalog.find? attr.declaringType = none) :
    catalog.checkInstance attr = .error (.unknownClass attr.declaringType) := by
  unfold checkInstance declared lookup
  rw [h]
  rfl

theorem checkInstance_of_static (h : catalog.find? attr.declaringType = some definition)
    (hstatic : definition.DeclaresStatic attr) :
    catalog.checkInstance attr = .error (.notAnInstanceAttribute attr) := by
  unfold checkInstance declared lookup
  rw [h]
  refine if_pos (List.any_eq_true.mpr ?_)
  obtain ⟨declared, hmem, hname, hstatic⟩ := hstatic
  exact ⟨declared, hmem, by rw [hname, hstatic, beq_self_eq_true, Bool.true_and]⟩

theorem checkInstance_of_instance (h : catalog.find? attr.declaringType = some definition)
    (hinst : ¬ definition.DeclaresStatic attr) : catalog.checkInstance attr = .ok () := by
  unfold checkInstance declared lookup
  rw [h]
  refine if_neg fun hany => hinst ?_
  obtain ⟨declared, hmem, hboth⟩ := List.any_eq_true.mp hany
  rw [Bool.and_eq_true, beq_iff_eq] at hboth
  exact ⟨declared, hmem, hboth⟩

theorem offsetIn_of_error {layout : Layout} {e : ClassError}
    (h : catalog.checkInstance attr = .error e) : catalog.offsetIn layout name attr = .error e := by
  unfold offsetIn
  rw [h]
  rfl

theorem offsetIn_of_none {layout : Layout} (h : catalog.checkInstance attr = .ok ())
    (hnone : layout.indexOf? attr = none) :
    catalog.offsetIn layout name attr = .error (.missingAttribute attr name) := by
  unfold offsetIn
  rw [h, hnone]
  rfl

/-- The place of an attribute in objects of a class, whether or not the class has a layout. -/
def offset (catalog : Catalog) (name : String) (attr : AttributeName) : Except ClassError Nat :=
  (catalog.layout name).bind fun layout => catalog.offsetIn layout name attr

theorem offset_of_ok {layout : Layout} (h : catalog.layout name = .ok layout) :
    catalog.offset name = catalog.offsetIn layout name := by
  funext attr
  unfold offset
  rw [h]
  rfl

theorem resolves_offset (catalog : Catalog) (name : String) (attr : AttributeName) :
    catalog.Resolves name attr (catalog.offset name attr) := by
  unfold offset
  rcases hlayout : catalog.layout name with e | layout
  · exact .uncollected hlayout
  change catalog.Resolves name attr (catalog.offsetIn layout name attr)
  rcases hfound : catalog.find? attr.declaringType with _ | definition
  · rw [offsetIn_of_error (checkInstance_of_unknown hfound)]
    exact .undefined hlayout hfound
  by_cases hstatic : definition.DeclaresStatic attr
  · rw [offsetIn_of_error (checkInstance_of_static hfound hstatic)]
    exact .static hlayout hfound hstatic
  have hcheck := checkInstance_of_instance hfound hstatic
  rcases hindex : layout.indexOf? attr with _ | i
  · rw [offsetIn_of_none hcheck hindex]
    exact .missing hlayout hfound hstatic (Layout.indexOf?_eq_none_iff.mp hindex)
  · rw [offsetIn_eq_ok_iff.mpr ⟨hcheck, hindex⟩]
    obtain ⟨entry, hentry, hname⟩ := (proper_layout hlayout).indexOf?_eq_some_iff.mp hindex
    exact .place hlayout hfound hstatic hentry hname

theorem Resolves.eq_offset {answer : Except ClassError Nat}
    (h : catalog.Resolves name attr answer) : catalog.offset name attr = answer := by
  unfold offset
  cases h with
  | uncollected failed =>
    rw [failed]
    rfl
  | undefined collected unknown =>
    rw [collected]
    exact offsetIn_of_error (checkInstance_of_unknown unknown)
  | static collected found static =>
    rw [collected]
    exact offsetIn_of_error (checkInstance_of_static found static)
  | missing collected found inst absent =>
    rw [collected]
    exact offsetIn_of_none (checkInstance_of_instance found inst)
      (Layout.indexOf?_eq_none_iff.mpr absent)
  | place collected found inst entry_eq fullName_eq =>
    rw [collected]
    exact offsetIn_eq_ok_iff.mpr ⟨checkInstance_of_instance found inst,
      (proper_layout collected).indexOf?_eq_some_iff.mpr ⟨_, entry_eq, fullName_eq⟩⟩

/-- **The place of an attribute is looked up in five ways**, of which exactly one is open. -/
theorem resolves_iff {answer : Except ClassError Nat} :
    catalog.Resolves name attr answer ↔ catalog.offset name attr = answer :=
  ⟨Resolves.eq_offset, fun h => h ▸ catalog.resolves_offset name attr⟩

end Catalog

/-! ### Registries in use -/

namespace Registry

/-- What a registry that has been in use answers of the places of attributes in objects of a class.
What is asked of single attributes may be asked at any other time. -/
structure LocatesAttributes (catalog : Catalog) (requests later : List Request) (name : String) :
    Prop where
  resolves_iff : ∀ attr answer, ((after catalog requests).offset name attr).1 = answer ↔
    catalog.Resolves name attr answer
  ok_iff : ∀ attr i, ((after catalog requests).offset name attr).1 = .ok i ↔
    ∃ layout definition entry, catalog.layout name = .ok layout ∧
      catalog.find? attr.declaringType = some definition ∧ ¬ definition.DeclaresStatic attr ∧
      layout[i]? = some entry ∧ entry.fullName = attr ∧
      ∀ j other, layout[j]? = some other → other.fullName = attr → j = i
  injective : ∀ attr other i, ((after catalog requests).offset name attr).1 = .ok i →
    ((after catalog later).offset name other).1 = .ok i → attr = other
  /-- A batch fails for the class before it looks at an attribute, also if there is none, -/
  batch_uncollected : ∀ e attributes, catalog.layout name = .error e →
    ((after catalog requests).offsets name attributes).1 = .error e
  /-- and else it is answered attribute by attribute, -/
  batch_ok_iff : ∀ layout attributes places, catalog.layout name = .ok layout →
    (((after catalog requests).offsets name attributes).1 = .ok places ↔
      List.Forall₂ (fun attr place => ((after catalog later).offset name attr).1 = .ok place)
        attributes places)
  /-- up to the first one that fails. -/
  batch_error_iff : ∀ layout attributes e, catalog.layout name = .ok layout →
    (((after catalog requests).offsets name attributes).1 = .error e ↔
      ∃ before attr rest, attributes = before ++ attr :: rest ∧
        (∀ earlier ∈ before, ∃ place, ((after catalog later).offset name earlier).1 = .ok place) ∧
        ((after catalog later).offset name attr).1 = .error e)

section
variable {catalog : Catalog} {name : String}

theorem offset_after (catalog : Catalog) (requests : List Request) (name : String)
    (attr : AttributeName) :
    ((after catalog requests).offset name attr).1 = catalog.offset name attr :=
  (faithful_after catalog requests).offset_fst name attr

theorem offsets_after_of_ok {layout : Layout} (hlayout : catalog.layout name = .ok layout)
    (requests : List Request) (attributes : List AttributeName) :
    ((after catalog requests).offsets name attributes).1
      = attributes.mapM (catalog.offset name) := by
  rw [(faithful_after catalog requests).offsets_fst, hlayout, Catalog.offset_of_ok hlayout]
  rfl

/-- **Places are exact**: every attribute is answered in the one way open to it, no two attributes
have the same place, and a batch is answered as its attributes are. -/
theorem locatesAttributes_after (catalog : Catalog) (requests later : List Request)
    (name : String) : LocatesAttributes catalog requests later name where
  resolves_iff attr answer := by
    rw [offset_after, Catalog.resolves_iff]
  ok_iff attr i := by
    rw [offset_after, ← Catalog.resolves_iff]
    constructor
    · rintro (_ | _ | _ | _ | ⟨collected, found, inst, entry_eq, fullName_eq⟩)
      refine ⟨_, _, _, collected, found, inst, entry_eq, fullName_eq,
        fun j other hother hname => ?_⟩
      exact (Catalog.proper_layout collected).eq_of_fullName_eq hother entry_eq
        (hname.trans fullName_eq.symm)
    · rintro ⟨layout, definition, entry, collected, found, inst, entry_eq, fullName_eq, -⟩
      exact .place collected found inst entry_eq fullName_eq
  injective attr other i := by
    rw [offset_after, offset_after, ← Catalog.resolves_iff, ← Catalog.resolves_iff]
    rintro (_ | _ | _ | _ | ⟨collected, _, _, entry_eq, fullName_eq⟩)
      (_ | _ | _ | _ | ⟨collected', _, _, entry_eq', fullName_eq'⟩)
    cases collected.symm.trans collected'
    cases entry_eq.symm.trans entry_eq'
    exact fullName_eq.symm.trans fullName_eq'
  batch_uncollected e attributes failed := by
    rw [(faithful_after catalog requests).offsets_fst, failed]
    rfl
  batch_ok_iff layout attributes places collected := by
    simp only [offset_after, offsets_after_of_ok collected, mapM_eq_ok_iff]
  batch_error_iff layout attributes e collected := by
    simp only [offset_after, offsets_after_of_ok collected, mapM_eq_error_iff]

end

end Registry

end HandleHeap
