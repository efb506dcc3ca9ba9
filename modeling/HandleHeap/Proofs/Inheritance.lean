import HandleHeap.Proofs.Objects
import HandleHeap.Proofs.Registries

/-!
# Objects of extended classes

What is known of the objects of a class holds of the objects of every class that extends it: the
layout of the class is the beginning of theirs, so an offset asked for the class is good for them.

* `Ledger.HasCell`: what can be done with an object at an offset if the kind there is known;
* `Registry.Substitutable`: an object of one class can stand for one of another;
* `Registry.substitutable_of_inherits`: it can if the one class extends the other.
-/

namespace HandleHeap

/-- A cell that is read as a value of a kind, and gives back every value of the kind that is written
to it. -/
structure Ledger.HasCell (ledger : Ledger) (offset : Int) (kind : Kind) : Prop where
  reads : ∃ value, value.kind = kind ∧ ledger.object.get offset = .ok value ∧
    ledger.object.getAs kind offset = .ok value
  writes : ∀ value : Value, value.kind = kind → ∃ object,
    ledger.object.set offset value = .ok object ∧ object.get offset = .ok value ∧
      object.getAs kind offset = .ok value

theorem Ledger.Follows.hasCell {className : String} {layout : Layout} {ledger : Ledger}
    (h : ledger.Follows className layout) {offset : Int} {attr : Attribute}
    (hattr : atOffset? layout offset = some attr) : ledger.HasCell offset attr.kind where
  reads := ⟨ledger.last offset attr, h.kind_last hattr, h.get_of_some hattr,
    (h.getAs_of_some hattr attr.kind).trans (if_pos rfl)⟩
  writes := by
    intro value hvalue
    obtain ⟨object, hset, -, -, hget⟩ := h.set_of_kind_eq hattr hvalue.symm
    have hself : object.get offset = .ok value := (hget offset).trans (if_pos rfl)
    exact ⟨object, hset, hself, (Object.getAs_of_get_ok hself attr.kind).trans (if_pos hvalue)⟩

namespace Registry

/-- Objects of the class `name`, whose layout is `layout`, can stand for objects of the class
`other`, whose layout is `inherited`. -/
structure Substitutable (catalog : Catalog) (name other : String) (layout inherited : Layout) :
    Prop where
  /-- Every registry gives the other class its layout, -/
  require_eq : ∀ requests, ((after catalog requests).require other).1 = .ok inherited
  /-- and registers it with this layout unless it has done so before. -/
  register_eq : ∀ requests, entry? (after catalog requests) other = none →
    ((after catalog requests).register other).1 = .ok inherited
  isPrefix : inherited <+: layout
  offset_eq : ∀ requests later attr offset,
    ((after catalog requests).offset other attr).1 = .ok offset →
      ((after catalog later).offset name attr).1 = .ok offset
  /-- The attribute is found at its offset in all objects of both classes, whatever has been written
  to them. -/
  hasCell : ∀ requests attr offset,
    ((after catalog requests).offset other attr).1 = .ok offset →
      ∃ declared, catalog.instanceAttribute? other attr = some declared ∧
        declared.fullName = attr ∧ inherited[offset]? = some declared ∧
        ∀ className, className = name ∨ className = other → ∀ later, ∃ made,
          ((after catalog later).instantiate className).1 = .ok (Object.fresh className made) ∧
            ∀ writes, (Ledger.after className made writes).HasCell offset declared.kind

section
variable {catalog : Catalog} {name other : String} {layout inherited : Layout}

theorem layout_of_made {requests : List Request}
    (h : ((after catalog requests).register name).1 = .ok layout ∨
      ((after catalog requests).require name).1 = .ok layout) :
    catalog.layout name = .ok layout := by
  have hfaithful := faithful_after catalog requests
  rcases h with h | h
  · rcases hentry : entry? (after catalog requests) name with _ | kept
    · rwa [hfaithful.register_fst hentry] at h
    · rw [register_of_some hentry] at h
      cases h
  · rwa [hfaithful.require_fst] at h

theorem offset_after_eq_ok_iff (hlayout : catalog.layout name = .ok layout)
    (requests : List Request) {attr : AttributeName} {offset : Nat} :
    ((after catalog requests).offset name attr).1 = .ok offset ↔
      catalog.offsetIn layout name attr = .ok offset := by
  rw [(faithful_after catalog requests).offset_fst, hlayout]
  rfl

/-- What stands at a place of the beginning of a layout is a cell of all objects. -/
theorem hasCell_of_prefix (hlayout : catalog.layout name = .ok layout)
    (hbegins : inherited <+: layout) {offset : Nat} {declared : Attribute}
    (hdeclared : inherited[offset]? = some declared) (requests : List Request) : ∃ made,
    ((after catalog requests).instantiate name).1 = .ok (Object.fresh name made) ∧
      ∀ writes, (Ledger.after name made writes).HasCell offset declared.kind := by
  refine ⟨layout, ?_, fun writes => (Ledger.follows_after name layout writes).hasCell ?_⟩
  · rw [(faithful_after catalog requests).instantiate_fst, hlayout]
    rfl
  · obtain ⟨hinside, -⟩ := List.getElem?_eq_some_iff.mp hdeclared
    obtain ⟨rest, rfl⟩ := hbegins
    rw [atOffset?_natCast, List.getElem?_append_left hinside, hdeclared]

/-- **An object can stand for one of a class that its own class extends**: a layout has been made
for its class, so there is one for the other class, it is the beginning of the former, and every
offset in it leads to the same attribute. -/
theorem substitutable_of_inherits {requests : List Request}
    (hinherits : catalog.Inherits name other)
    (hmade : ((after catalog requests).register name).1 = .ok layout ∨
      ((after catalog requests).require name).1 = .ok layout) :
    ∃ inherited, Substitutable catalog name other layout inherited := by
  have hlayout : catalog.layout name = .ok layout := layout_of_made hmade
  obtain ⟨inherited, hinherited, hbegins⟩ := Catalog.layout_of_inherits hinherits hlayout
  refine ⟨inherited, {
    require_eq := fun requests =>
      ((faithful_after catalog requests).require_fst other).trans hinherited
    register_eq := fun requests hnone =>
      ((faithful_after catalog requests).register_fst hnone).trans hinherited
    isPrefix := hbegins
    offset_eq := fun requests later attr offset hoffset => ?_
    hasCell := fun requests attr offset hoffset => ?_ }⟩
  · rw [offset_after_eq_ok_iff hinherited] at hoffset
    rw [offset_after_eq_ok_iff hlayout]
    exact Catalog.offsetIn_of_prefix hbegins hoffset
  · rw [offset_after_eq_ok_iff hinherited] at hoffset
    obtain ⟨-, hindex⟩ := Catalog.offsetIn_eq_ok_iff.mp hoffset
    obtain ⟨declared, hdeclared, hname, hfind⟩ := Layout.exists_getElem?_of_indexOf? hindex
    have hinstance : catalog.instanceAttribute? other attr = some declared := by
      unfold Catalog.instanceAttribute?
      rw [← Layout.find?_ofDeclarations, ← Catalog.layout_eq_ofDeclarations hinherited, hfind]
    refine ⟨declared, hinstance, hname, hdeclared, ?_⟩
    rintro className (rfl | rfl) later
    · exact hasCell_of_prefix hlayout hbegins hdeclared later
    · exact hasCell_of_prefix hinherited (List.prefix_refl _) hdeclared later

end

/-- Three classes in a row.  The second declares an attribute of the first again, of another
kind. -/
def staff : Catalog :=
  ((Catalog.empty.define ⟨"Entity", none,
      [⟨"Entity", "count", .scalar .int, true⟩, ⟨"Entity", "id", .scalar .long, false⟩]⟩).define
    ⟨"Person", some "Entity",
      [⟨"Entity", "id", .scalar .int, false⟩, ⟨"Person", "name", .reference, false⟩]⟩).define
    ⟨"Employee", some "Person", [⟨"Employee", "salary", .scalar .double, false⟩]⟩

theorem substitutable_employee : ∃ inherited, Substitutable staff "Employee" "Entity"
    [⟨"Entity", "id", .scalar .long, false⟩, ⟨"Person", "name", .reference, false⟩,
      ⟨"Employee", "salary", .scalar .double, false⟩] inherited := by
  have hperson : staff.Extends "Employee" "Person" := by cbv
  have hentity : staff.Extends "Person" "Entity" := by cbv
  have hregister : ((after staff []).register "Employee").1
      = .ok [⟨"Entity", "id", .scalar .long, false⟩, ⟨"Person", "name", .reference, false⟩,
          ⟨"Employee", "salary", .scalar .double, false⟩] := by cbv
  exact substitutable_of_inherits (.head hperson (.single hentity)) (Or.inl hregister)

end Registry

end HandleHeap
