import HandleHeap.Proofs.Places
import HandleHeap.Proofs.Searches

/-!
# Batches of attributes

A batch of attributes is looked up in objects of the narrowest class that it names.  The narrowest
class is found by holding one class and letting every narrower one take its place.  The comparison
of two classes may fail, and of two that do not extend each other the one that comes first is held.
A batch that is answered has no such classes: all that it names are on the way up from one of them.

* `ClassDescription.DeclaresOwn`, `Catalog.DeclaresOwn`: attributes name the class that lists them,
  which is so if classes are made by `ClassDescription.declare`;
* `Catalog.Spans`: a class with a layout, which the batch names, extends all others that it names;
* `Catalog.narrowest_of_spans`: then it is the narrowest, in every order;
* `Catalog.inherits_of_offset_eq_ok`: an attribute has a place in objects of the class that declares
  it and of classes that extend this one;
* `Registry.offsetsOf_eq_ok_iff`: a batch is answered exactly if a class spans it;
* `Registry.Rearranged`, `Registry.rearranged_of_declaresOwn`: the answers in two orders.
-/

namespace HandleHeap

/-! ### Classes that declare their own attributes -/

/-- The attributes of a class name it as the class that declares them. -/
def ClassDescription.DeclaresOwn (definition : ClassDescription) : Prop :=
  ∀ attr ∈ definition.attributes, attr.declaringType = definition.name

namespace ClassDescription

variable {definition : ClassDescription}

theorem declaresOwn_root (name : String) : (root name).DeclaresOwn := nofun

theorem DeclaresOwn.extending (h : definition.DeclaresOwn) (superclass : String) :
    (definition.extending superclass).DeclaresOwn := h

theorem DeclaresOwn.declare (h : definition.DeclaresOwn) (name : String) (kind : Kind)
    (isStatic : Bool) : (definition.declare name kind isStatic).DeclaresOwn := by
  intro attr hattr
  rcases List.mem_append.mp hattr with hold | hnew
  · exact h attr hold
  · rw [List.mem_singleton.mp hnew]
    rfl

end ClassDescription

namespace Catalog

/-- Every class of the catalog declares its own attributes. -/
def DeclaresOwn (catalog : Catalog) : Prop :=
  ∀ name definition, catalog.find? name = some definition → definition.DeclaresOwn

theorem declaresOwn_empty : empty.DeclaresOwn := fun _ _ h => nomatch h

variable {catalog : Catalog} {name : String}

theorem DeclaresOwn.define (h : catalog.DeclaresOwn) {definition : ClassDescription}
    (hown : definition.DeclaresOwn) : (catalog.define definition).DeclaresOwn := by
  intro name found hfound
  unfold find? Catalog.define at hfound
  rw [List.find?_cons] at hfound
  split at hfound
  · cases hfound
    exact hown
  · exact h name found hfound

/-! ### The narrowest class -/

/-- The class held after one more attribute. -/
def narrow (catalog : Catalog) (held : String) (attr : AttributeName) :
    Except ClassError String := do
  let candidate := attr.declaringType
  if candidate = held then return held
  else if ← catalog.isSubclass candidate held then return candidate
  else return held

theorem narrowest_cons (catalog : Catalog) (first : AttributeName) (rest : List AttributeName) :
    catalog.narrowest (first :: rest)
      = (rest.foldlM catalog.narrow first.declaringType).map some := by
  change (rest.foldlM catalog.narrow first.declaringType).bind (fun held => .ok (some held)) = _
  cases rest.foldlM catalog.narrow first.declaringType <;> rfl

theorem narrow_of_eq {held : String} {attr : AttributeName} (h : attr.declaringType = held) :
    catalog.narrow held attr = .ok held := if_pos h

theorem narrow_of_ne {held : String} {attr : AttributeName} (h : attr.declaringType ≠ held) :
    catalog.narrow held attr = (catalog.isSubclass attr.declaringType held).map fun narrower =>
      if narrower then attr.declaringType else held := by
  refine (if_neg h).trans ?_
  rcases catalog.isSubclass attr.declaringType held with e | _ | _ <;> rfl

/-- The class held changes to the one that the attribute names, if it changes. -/
theorem narrow_cases {held next : String} {attr : AttributeName}
    (h : catalog.narrow held attr = .ok next) : next = held ∨ next = attr.declaringType := by
  by_cases hsame : attr.declaringType = held
  · rw [narrow_of_eq hsame] at h
    exact Or.inl (Except.ok.inj h).symm
  · rw [narrow_of_ne hsame] at h
    rcases hsub : catalog.isSubclass attr.declaringType held with e | _ | _
    · rw [hsub] at h
      cases h
    · rw [hsub] at h
      exact Or.inl (Except.ok.inj h).symm
    · rw [hsub] at h
      exact Or.inr (Except.ok.inj h).symm

theorem foldlM_narrow_cases {rest : List AttributeName} {held : String}
    (h : rest.foldlM catalog.narrow held = .ok name) :
    name = held ∨ name ∈ rest.map AttributeName.declaringType := by
  induction rest generalizing held with
  | nil => exact Or.inl (Except.ok.inj h).symm
  | cons attr rest ih =>
    rw [List.foldlM_cons] at h
    rw [List.map_cons, List.mem_cons]
    rcases hnext : catalog.narrow held attr with e | next
    · rw [hnext] at h
      cases h
    · rw [hnext] at h
      rcases ih h with rfl | hmem
      · exact (narrow_cases hnext).imp_right Or.inl
      · exact Or.inr (Or.inr hmem)

/-- The narrowest class is one that the batch names. -/
theorem narrowest_cases {attributes : List AttributeName} (hne : attributes ≠ [])
    {found : Option String} (h : catalog.narrowest attributes = .ok found) :
    ∃ name, found = some name ∧ name ∈ attributes.map AttributeName.declaringType := by
  obtain ⟨first, rest, rfl⟩ := List.exists_cons_of_ne_nil hne
  rw [narrowest_cons] at h
  rcases hheld : rest.foldlM catalog.narrow first.declaringType with e | held
  · rw [hheld] at h
    cases h
  · rw [hheld] at h
    exact ⟨held, (Except.ok.inj h).symm, List.mem_cons.mpr (foldlM_narrow_cases hheld)⟩

/-- A class with a layout that the batch names, and that is or extends every class it names. -/
structure Spans (catalog : Catalog) (name : String) (attributes : List AttributeName) : Prop where
  collected : ∃ layout, catalog.layout name = .ok layout
  mem : name ∈ attributes.map AttributeName.declaringType
  inherits : ∀ attr ∈ attributes, catalog.Inherits name attr.declaringType

/-- Between two superclasses of a class with a layout a search gives an answer. -/
theorem isSubclass_of_inherits {layout : Layout} (hlayout : catalog.layout name = .ok layout)
    {low : String} (hlow : catalog.Inherits name low) (high : String) :
    (catalog.isSubclass low high = .ok true ∧ catalog.Inherits low high) ∨
      (catalog.isSubclass low high = .ok false ∧ ¬ catalog.Inherits low high) := by
  by_cases hinherits : catalog.Inherits low high
  · exact Or.inl ⟨isSubclass_eq_true_iff.mpr hinherits, hinherits⟩
  · obtain ⟨inherited, hinherited, -⟩ := layout_of_inherits hlow hlayout
    refine Or.inr ⟨?_, hinherits⟩
    rw [isSubclass_of_not_inherits hinherits, hinherited]
    rfl

/-- **On the way up from a class with a layout** the class itself is held in the end, if it is held
at the beginning or comes later. -/
theorem foldlM_narrow_of_inherits {layout : Layout} (hlayout : catalog.layout name = .ok layout)
    {rest : List AttributeName} {held : String} (hheld : catalog.Inherits name held)
    (hall : ∀ attr ∈ rest, catalog.Inherits name attr.declaringType)
    (hmem : name = held ∨ name ∈ rest.map AttributeName.declaringType) :
    rest.foldlM catalog.narrow held = .ok name := by
  induction rest generalizing held with
  | nil =>
    rcases hmem with rfl | hmem
    · rfl
    · cases hmem
  | cons attr rest ih =>
    have hattr := hall attr List.mem_cons_self
    have hrest : ∀ attr ∈ rest, catalog.Inherits name attr.declaringType :=
      fun other hother => hall other (List.mem_cons_of_mem _ hother)
    rw [List.map_cons, List.mem_cons] at hmem
    rw [List.foldlM_cons]
    by_cases hsame : attr.declaringType = held
    · rw [narrow_of_eq hsame]
      refine ih hheld hrest ?_
      rcases hmem with hname | hname | hmem
      · exact Or.inl hname
      · exact Or.inl (hname.trans hsame)
      · exact Or.inr hmem
    · rw [narrow_of_ne hsame]
      rcases isSubclass_of_inherits hlayout hattr held with
        ⟨hanswer, hnarrower⟩ | ⟨hanswer, hnot⟩
      · rw [hanswer]
        refine ih hattr hrest ?_
        rcases hmem with rfl | hname | hmem
        · -- nothing is narrower than the class itself
          exact absurd (hattr.antisymm hlayout hnarrower).symm hsame
        · exact Or.inl hname
        · exact Or.inr hmem
      · rw [hanswer]
        refine ih hheld hrest ?_
        rcases hmem with hname | hname | hmem
        · exact Or.inl hname
        · exact absurd (hname ▸ hheld) hnot
        · exact Or.inr hmem

/-- **A class that spans a batch is its narrowest class**, in whatever order the batch stands. -/
theorem narrowest_of_spans {attributes : List AttributeName} (h : catalog.Spans name attributes) :
    catalog.narrowest attributes = .ok (some name) := by
  obtain ⟨⟨layout, hlayout⟩, hmem, hall⟩ := h
  rcases attributes with _ | ⟨first, rest⟩
  · cases hmem
  · rw [narrowest_cons, foldlM_narrow_of_inherits hlayout (hall first List.mem_cons_self)
      (fun attr hattr => hall attr (List.mem_cons_of_mem _ hattr)) (List.mem_cons.mp hmem)]
    rfl

theorem Spans.of_perm {attributes others : List AttributeName} (h : catalog.Spans name attributes)
    (hperm : attributes.Perm others) : catalog.Spans name others where
  collected := h.collected
  mem := (hperm.map _).mem_iff.mp h.mem
  inherits attr hattr := h.inherits attr (hperm.mem_iff.mpr hattr)

theorem Spans.unique {attributes : List AttributeName} {other : String}
    (h : catalog.Spans name attributes) (hmem : other ∈ attributes.map AttributeName.declaringType)
    (hall : ∀ attr ∈ attributes, catalog.Inherits other attr.declaringType) : other = name := by
  obtain ⟨attr, hattr, rfl⟩ := List.mem_map.mp hmem
  obtain ⟨own, hown, rfl⟩ := List.mem_map.mp h.mem
  obtain ⟨layout, hlayout⟩ := h.collected
  exact ((h.inherits attr hattr).antisymm hlayout (hall own hown)).symm

/-! ### Places and superclasses -/

theorem Path.find?_of_mem {passed : List ClassDescription} {end' : Option String}
    (h : catalog.Path name passed end') {definition : ClassDescription}
    (hmem : definition ∈ passed) : catalog.find? definition.name = some definition := by
  induction h with
  | here => cases hmem
  | root found _ =>
    obtain rfl := List.mem_singleton.mp hmem
    rwa [name_of_find? found]
  | up found _ _ ih =>
    rcases List.mem_cons.mp hmem with rfl | hmem
    · rwa [name_of_find? found]
    · exact ih hmem

/-- **An attribute has a place in objects of the class that declares it**, and of those that extend
this class. -/
theorem inherits_of_offset_eq_ok (hown : catalog.DeclaresOwn) {attr : AttributeName} {i : Nat}
    (h : catalog.offset name attr = .ok i) : catalog.Inherits name attr.declaringType := by
  unfold offset at h
  rcases hlayout : catalog.layout name with e | layout
  · rw [hlayout] at h
    cases h
  · rw [hlayout] at h
    obtain ⟨-, hindex⟩ := offsetIn_eq_ok_iff.mp h
    obtain ⟨entry, -, hname, hfind⟩ := Layout.exists_getElem?_of_indexOf? hindex
    obtain ⟨passed, hpath, rfl⟩ := layout_eq_ok_iff.mp hlayout
    rw [Layout.find?_ofDeclarations] at hfind
    obtain ⟨definition, hdefinition, hentry⟩ :=
      List.mem_flatMap.mp (List.mem_of_find?_eq_some hfind)
    rw [List.mem_reverse] at hdefinition
    rw [← hname]
    change catalog.Inherits name entry.declaringType
    rw [hown _ definition (hpath.find?_of_mem hdefinition) entry hentry]
    exact hpath.inherits.1 _ (List.mem_map_of_mem hdefinition)

end Catalog

/-! ### Answers -/

theorem forall₂_ofFn_iff {α β : Type} {R : α → β → Prop} {n : Nat} {f : Fin n → α} {l : List β} :
    List.Forall₂ R (List.ofFn f) l ↔ ∃ g : Fin n → β, l = List.ofFn g ∧ ∀ i, R (f i) (g i) := by
  induction n generalizing l with
  | zero =>
    rw [List.ofFn_zero, List.forall₂_nil_left_iff]
    exact ⟨fun h => ⟨nofun, h.trans List.ofFn_zero.symm, nofun⟩,
      fun ⟨_, h, _⟩ => h.trans List.ofFn_zero⟩
  | succ n ih =>
    rw [List.ofFn_succ, List.forall₂_cons_left_iff]
    constructor
    · rintro ⟨b, rest, hb, hrest, rfl⟩
      obtain ⟨g, rfl, hg⟩ := ih.mp hrest
      refine ⟨Fin.cons b g, ?_, Fin.cases hb hg⟩
      rw [List.ofFn_succ]
      rfl
    · rintro ⟨g, rfl, hg⟩
      exact ⟨g 0, _, hg 0, ih.mpr ⟨fun i => g i.succ, rfl, fun i => hg i.succ⟩, List.ofFn_succ⟩

namespace Registry

variable {catalog : Catalog} {name : String} {attributes : List AttributeName}

theorem offsetsOf_after_of_narrowest (h : catalog.narrowest attributes = .ok (some name))
    (requests : List Request) : ((after catalog requests).offsetsOf attributes).1
      = ((after catalog requests).offsets name attributes).1 := by
  rw [(faithful_after catalog requests).offsetsOf_fst, h,
    (faithful_after catalog requests).offsets_fst]
  rfl

theorem offsetsOf_after_of_spans (h : catalog.Spans name attributes) (requests : List Request) :
    ((after catalog requests).offsetsOf attributes).1 = attributes.mapM (catalog.offset name) := by
  obtain ⟨layout, hlayout⟩ := h.collected
  rw [offsetsOf_after_of_narrowest (Catalog.narrowest_of_spans h), offsets_after_of_ok hlayout]

/-- **A batch that is answered is spanned by a class**, the narrowest one. -/
theorem exists_spans_of_offsetsOf_eq_ok (hown : catalog.DeclaresOwn) {requests : List Request}
    (hne : attributes ≠ []) {places : List Nat}
    (h : ((after catalog requests).offsetsOf attributes).1 = .ok places) :
    ∃ name, catalog.Spans name attributes := by
  rcases hnarrowest : catalog.narrowest attributes with e | found
  · rw [(faithful_after catalog requests).offsetsOf_fst, hnarrowest] at h
    cases h
  obtain ⟨name, rfl, hmem⟩ := Catalog.narrowest_cases hne hnarrowest
  rw [offsetsOf_after_of_narrowest hnarrowest] at h
  rcases hlayout : catalog.layout name with e | layout
  · rw [(faithful_after catalog requests).offsets_fst, hlayout] at h
    cases h
  · rw [offsets_after_of_ok hlayout] at h
    refine ⟨name, ⟨layout, hlayout⟩, hmem, fun attr hattr => ?_⟩
    obtain ⟨i, hi⟩ := exists_of_mapM_eq_ok h hattr
    exact Catalog.inherits_of_offset_eq_ok hown hi

section order
variable {n : Nat} {batch : Fin n → AttributeName}

/-- **A batch is answered exactly if a class spans it**, with the places in objects of this class.
A batch of no attributes is answered as well. -/
theorem offsetsOf_eq_ok_iff (hown : catalog.DeclaresOwn) (requests : List Request)
    {places : List Nat} : ((after catalog requests).offsetsOf (List.ofFn batch)).1 = .ok places ↔
      ∃ place : Fin n → Nat, places = List.ofFn place ∧
        (0 < n → ∃ name, catalog.Spans name (List.ofFn batch) ∧
          ∀ i, catalog.offset name (batch i) = .ok (place i)) := by
  rcases Nat.eq_zero_or_pos n with rfl | hn
  · rw [(faithful_after catalog requests).offsetsOf_fst, List.ofFn_zero]
    exact ⟨fun h => ⟨nofun, (Except.ok.inj h).symm.trans List.ofFn_zero.symm, nofun⟩,
      fun ⟨place, h, _⟩ => congrArg Except.ok (h.trans List.ofFn_zero).symm⟩
  have hne : List.ofFn batch ≠ [] := fun hnil => by
    rw [List.ofFn_eq_nil_iff] at hnil
    omega
  constructor
  · intro h
    obtain ⟨name, hspans⟩ := exists_spans_of_offsetsOf_eq_ok hown hne h
    rw [offsetsOf_after_of_spans hspans, mapM_eq_ok_iff, forall₂_ofFn_iff] at h
    obtain ⟨place, hplaces, hoffset⟩ := h
    exact ⟨place, hplaces, fun _ => ⟨name, hspans, hoffset⟩⟩
  · rintro ⟨place, rfl, hspanned⟩
    obtain ⟨name, hspans, hoffset⟩ := hspanned hn
    rw [offsetsOf_after_of_spans hspans, mapM_eq_ok_iff, forall₂_ofFn_iff]
    exact ⟨place, rfl, hoffset⟩

/-- In another order a batch is answered with its places in that order. -/
theorem offsetsOf_comp (hown : catalog.DeclaresOwn) {requests : List Request} {place : Fin n → Nat}
    (h : ((after catalog requests).offsetsOf (List.ofFn batch)).1 = .ok (List.ofFn place))
    (later : List Request) (order : Equiv.Perm (Fin n)) :
    ((after catalog later).offsetsOf (List.ofFn (batch ∘ order))).1
      = .ok (List.ofFn (place ∘ order)) := by
  obtain ⟨same, hsame, hspanned⟩ := (offsetsOf_eq_ok_iff hown requests).mp h
  obtain rfl := List.ofFn_injective hsame
  refine (offsetsOf_eq_ok_iff hown later).mpr ⟨_, rfl, fun hn => ?_⟩
  obtain ⟨name, hspans, hoffset⟩ := hspanned hn
  exact ⟨name, hspans.of_perm (order.ofFn_comp_perm batch).symm, fun i => hoffset (order i)⟩

/-- The answers to a batch in one order and in another, of registries that have been in use. -/
structure Rearranged (catalog : Catalog) (requests later : List Request)
    (batch : Fin n → AttributeName) (order : Equiv.Perm (Fin n)) : Prop where
  answers_iff : (∃ places, ((after catalog requests).offsetsOf (List.ofFn batch)).1 = .ok places) ↔
    ∃ places, ((after catalog later).offsetsOf (List.ofFn (batch ∘ order))).1 = .ok places
  /-- The places stand in the order of their attributes. -/
  rearranged : ∀ places others,
    ((after catalog requests).offsetsOf (List.ofFn batch)).1 = .ok places →
      ((after catalog later).offsetsOf (List.ofFn (batch ∘ order))).1 = .ok others →
        ∃ place : Fin n → Nat, places = List.ofFn place ∧ others = List.ofFn (place ∘ order)
  /-- One class that the batch names extends the others, it is the narrowest in both orders, and the
  places are those in its objects. -/
  narrowest : ∀ places, ((after catalog requests).offsetsOf (List.ofFn batch)).1 = .ok places →
    0 < n → ∃ name, catalog.narrowest (List.ofFn batch) = .ok (some name) ∧
      catalog.narrowest (List.ofFn (batch ∘ order)) = .ok (some name) ∧
      (∃ i, (batch i).declaringType = name) ∧
      (∀ i, catalog.isSubclass name (batch i).declaringType = .ok true) ∧
      (∀ i, (∀ j, catalog.isSubclass (batch i).declaringType (batch j).declaringType = .ok true) →
        (batch i).declaringType = name) ∧
      List.Forall₂ (fun attr place => ((after catalog later).offset name attr).1 = .ok place)
        (List.ofFn batch) places

/-- **The order of a batch does not matter**, if attributes name the class that lists them. -/
theorem rearranged_of_declaresOwn (hown : catalog.DeclaresOwn) (requests later : List Request)
    (batch : Fin n → AttributeName) (order : Equiv.Perm (Fin n)) :
    Rearranged catalog requests later batch order where
  answers_iff := by
    constructor
    · rintro ⟨places, hplaces⟩
      obtain ⟨place, rfl, -⟩ := (offsetsOf_eq_ok_iff hown requests).mp hplaces
      exact ⟨_, offsetsOf_comp hown hplaces later order⟩
    · rintro ⟨others, hothers⟩
      obtain ⟨place, rfl, -⟩ := (offsetsOf_eq_ok_iff hown later).mp hothers
      have hback := offsetsOf_comp hown hothers requests order.symm
      rw [Function.comp_assoc, Equiv.self_comp_symm, Function.comp_id] at hback
      exact ⟨_, hback⟩
  rearranged := by
    intro places others hplaces hothers
    obtain ⟨place, rfl, -⟩ := (offsetsOf_eq_ok_iff hown requests).mp hplaces
    exact ⟨place, rfl, Except.ok.inj (hothers.symm.trans (offsetsOf_comp hown hplaces later order))⟩
  narrowest := by
    intro places hplaces hn
    obtain ⟨place, rfl, hspanned⟩ := (offsetsOf_eq_ok_iff hown requests).mp hplaces
    obtain ⟨name, hspans, hoffset⟩ := hspanned hn
    have hinherits : ∀ i, catalog.Inherits name (batch i).declaringType :=
      fun i => hspans.inherits _ (List.mem_ofFn.mpr ⟨i, rfl⟩)
    refine ⟨name, Catalog.narrowest_of_spans hspans,
      Catalog.narrowest_of_spans (hspans.of_perm (order.ofFn_comp_perm batch).symm), ?_,
      fun i => Catalog.isSubclass_eq_true_iff.mpr (hinherits i), fun i hall => ?_, ?_⟩
    · obtain ⟨attr, hattr, hname⟩ := List.mem_map.mp hspans.mem
      obtain ⟨i, rfl⟩ := List.mem_ofFn.mp hattr
      exact ⟨i, hname⟩
    · refine hspans.unique (List.mem_map.mpr ⟨_, List.mem_ofFn.mpr ⟨i, rfl⟩, rfl⟩) ?_
      intro attr hattr
      obtain ⟨j, rfl⟩ := List.mem_ofFn.mp hattr
      exact Catalog.isSubclass_eq_true_iff.mp (hall j)
    · refine forall₂_ofFn_iff.mpr ⟨place, rfl, fun i => ?_⟩
      rw [offset_after]
      exact hoffset i

end order

/-- A class, two that extend it, and one that extends the first of these, made by declaring
attributes. -/
def fleet : Catalog :=
  (((Catalog.empty.define (((ClassDescription.root "Vehicle").declare
      "wheels" (.scalar .int) false).declare "count" (.scalar .long) true)).define
    (((ClassDescription.root "Car").extending "Vehicle").declare
      "doors" (.scalar .byte) false)).define
    (((ClassDescription.root "Taxi").extending "Car").declare
      "fare" (.scalar .double) false)).define
    (((ClassDescription.root "Bus").extending "Vehicle").declare
      "seats" (.scalar .int) false)

/-- The narrowest class stands in the middle of the batch. -/
theorem rearranged_of_rotation : fleet.DeclaresOwn ∧
    ((after fleet []).offsetsOf
      (List.ofFn ![⟨"Car", "doors"⟩, ⟨"Taxi", "fare"⟩, ⟨"Vehicle", "wheels"⟩])).1
        = .ok [1, 2, 0] ∧
    Rearranged fleet [] [.register "Bus"]
      ![⟨"Car", "doors"⟩, ⟨"Taxi", "fare"⟩, ⟨"Vehicle", "wheels"⟩] (finRotate 3) := by
  have hown : fleet.DeclaresOwn :=
    (((Catalog.declaresOwn_empty.define
      (((ClassDescription.declaresOwn_root _).declare _ _ _).declare _ _ _)).define
      (((ClassDescription.declaresOwn_root _).extending _).declare _ _ _)).define
      (((ClassDescription.declaresOwn_root _).extending _).declare _ _ _)).define
      (((ClassDescription.declaresOwn_root _).extending _).declare _ _ _)
  exact ⟨hown, by cbv, rearranged_of_declaresOwn hown _ _ _ _⟩

end Registry

end HandleHeap
