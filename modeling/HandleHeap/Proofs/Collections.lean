import HandleHeap.Proofs.Registries

/-!
# Collection of layouts

The layout of a class is collected when it is first asked for.  The way up from the class is
followed to the first thing that ends it, which there is on every way: a root class, a name that no
class has, or a name passed before.  Only the first of these endings gives a layout, and it has the
instance attributes of all classes passed, each full name at its first occurrence.

* `Catalog.Ends`: how the way up from a class ends, and what it passes before;
* `Catalog.ends_ascent`, `Catalog.Ends.unique`: there is exactly one end, and an ascent finds it;
* `Layout.ofDeclarations_eq`: a layout as a list from which repetitions are taken out;
* `Layout.Proper`, `Layout.proper_ofDeclarations`: what adding an attribute preserves;
* `Registry.Collected`, `Registry.collected_of_entry?_eq_none`: what a class is answered for which
  no layout is kept.
-/

namespace HandleHeap

namespace Catalog

variable {catalog : Catalog} {name stop other : String} {passed others rest : List ClassDescription}

/-! ### The end of the way up -/

/-- Of two stretches of the way up from one name, one goes on where the other stops. -/
theorem Path.comparable (h : catalog.Path name passed (some stop))
    (h' : catalog.Path name others (some other)) :
    (∃ rest, others = passed ++ rest ∧ catalog.Path stop rest (some other)) ∨
      ∃ rest, passed = others ++ rest ∧ catalog.Path other rest (some stop) := by
  generalize hstop : some stop = end' at h
  induction h generalizing others with
  | here => cases hstop; exact Or.inl ⟨others, rfl, h'⟩
  | root => cases hstop
  | @up _ _ definition passed _ found parent_eq above ih =>
    cases h' with
    | here => subst hstop; exact Or.inr ⟨_, rfl, .up found parent_eq above⟩
    | up found' parent_eq' above' =>
      cases found.symm.trans found'
      cases parent_eq.symm.trans parent_eq'
      rcases ih above' hstop with ⟨rest, rfl, hrest⟩ | ⟨rest, rfl, hrest⟩
      · exact Or.inl ⟨rest, rfl, hrest⟩
      · exact Or.inr ⟨rest, rfl, hrest⟩

theorem Path.find?_head {definition : ClassDescription} {end' : Option String}
    (h : catalog.Path name (definition :: rest) end') : catalog.find? name = some definition := by
  cases h with
  | root found _ => exact found
  | up found _ _ => exact found

/-- The names passed are names of classes. -/
theorem Path.exists_find?_of_mem {end' : Option String} (h : catalog.Path name passed end')
    (hmem : other ∈ passed.map ClassDescription.name) :
    ∃ definition, catalog.find? other = some definition := by
  obtain ⟨rest, hne, hrest⟩ := h.exists_of_mem hmem
  obtain ⟨definition, rest, rfl⟩ := List.exists_cons_of_ne_nil hne
  exact ⟨definition, hrest.find?_head⟩

/-- The way up from a class ends so after it has passed some classes, and no name comes twice before
the end. -/
structure Ends (catalog : Catalog) (name : String) (passed : List ClassDescription)
    (ending : Ending) : Prop where
  path : catalog.Path name passed ending.stop
  nodup : (passed.map ClassDescription.name).Nodup
  holds : ending.Holds catalog [] passed

/-- An ascent passes no name twice, and none that it has been told of. -/
theorem nodup_ascentFrom (visited : List String) (unseen : List ClassDescription) (name : String) :
    ((ascentFrom visited unseen name).passed.map ClassDescription.name).Nodup ∧
      ∀ other ∈ (ascentFrom visited unseen name).passed.map ClassDescription.name,
        other ∉ visited := by
  fun_induction ascentFrom visited unseen name with
  | case1 | case2 => exact ⟨List.nodup_nil, fun _ hother => absurd hother List.not_mem_nil⟩
  | case3 visited unseen name hvisited definition hfound =>
    have hname := List.find?_some hfound
    rw [beq_iff_eq] at hname
    rw [List.contains_iff_mem] at hvisited
    refine ⟨List.nodup_singleton _, fun other hother => ?_⟩
    rw [List.map_singleton, List.mem_singleton, hname] at hother
    rw [hother]
    exact hvisited
  | case4 visited unseen name hvisited definition hfound parent _ above ih =>
    have hname := List.find?_some hfound
    rw [beq_iff_eq] at hname
    rw [List.contains_iff_mem] at hvisited
    obtain ⟨hnodup, hfresh⟩ := ih
    rw [List.map_cons, hname]
    refine ⟨List.nodup_cons.mpr ⟨fun hmem => hfresh name hmem List.mem_cons_self, hnodup⟩,
      fun other hother => ?_⟩
    rcases List.mem_cons.mp hother with rfl | hother
    · exact hvisited
    · exact fun hmem => hfresh other hother (List.mem_cons_of_mem _ hmem)

theorem ends_ascent (catalog : Catalog) (name : String) :
    catalog.Ends name (catalog.ascent name).passed (catalog.ascent name).ending :=
  ⟨(catalog.ascent_spec name).1, (nodup_ascentFrom [] catalog.definitions name).1,
    (catalog.ascent_spec name).2⟩

namespace Ends

variable {ending ending' : Ending}

/-- Where the way ends at a name, it does not go on without coming twice to that name. -/
theorem rest_eq_nil (h : catalog.Ends name passed ending) (hstop : ending.stop = some stop)
    {end' : Option String} (hrest : catalog.Path stop rest end')
    (hnodup : ((passed ++ rest).map ClassDescription.name).Nodup) : rest = [] := by
  rcases rest with _ | ⟨definition, rest⟩
  · rfl
  have hfound := hrest.find?_head
  have hholds := h.holds
  rcases ending with _ | unknown | cyclic <;> cases hstop
  · exact nomatch hfound.symm.trans (show catalog.find? stop = none from hholds)
  · have hmem : stop ∈ passed.map ClassDescription.name := hholds.resolve_left List.not_mem_nil
    rw [List.map_append, List.map_cons, name_of_find? hfound, List.nodup_append] at hnodup
    exact absurd rfl (hnodup.2.2 stop hmem stop List.mem_cons_self)

/-- A way that ends at a name ends at no other and past no root class. -/
theorem eq_of_append (h : catalog.Ends name passed ending) (hstop : ending.stop = some stop)
    (h' : catalog.Ends name (passed ++ rest) ending')
    (hrest : catalog.Path stop rest ending'.stop) :
    rest = [] ∧ ending'.stop = some stop := by
  obtain rfl := h.rest_eq_nil hstop hrest h'.nodup
  generalize ending'.stop = end' at hrest
  cases hrest
  exact ⟨rfl, rfl⟩

/-- At one name, after the same classes, there is one kind of end. -/
theorem ending_eq (h : catalog.Ends name passed ending) (h' : catalog.Ends name passed ending')
    (hstop : ending.stop = ending'.stop) : ending = ending' := by
  have hmixed : ∀ {stop : String}, catalog.Ends name passed (.unknown stop) →
      ¬ catalog.Ends name passed (.cyclic stop) := by
    intro stop hunknown hcyclic
    obtain ⟨definition, hfound⟩ :=
      hcyclic.path.exists_find?_of_mem (hcyclic.holds.resolve_left List.not_mem_nil)
    exact nomatch hfound.symm.trans (show catalog.find? stop = none from hunknown.holds)
  rcases ending with _ | stop | stop <;> rcases ending' with _ | stop' | stop' <;> cases hstop
  · rfl
  · rfl
  · exact absurd h' (hmixed h)
  · exact absurd h (hmixed h')
  · rfl

/-- **The way up has one end.** -/
theorem unique (h : catalog.Ends name passed ending) (h' : catalog.Ends name others ending') :
    passed = others ∧ ending = ending' := by
  have heq : passed = others ∧ ending.stop = ending'.stop := by
    rcases hstop : ending.stop with _ | stop <;> rcases hstop' : ending'.stop with _ | stop'
    · exact ⟨Path.unique (hstop ▸ h.path) (hstop' ▸ h'.path), rfl⟩
    · obtain ⟨rest, rfl, hrest⟩ := Path.exists_rest (hstop ▸ h.path) (hstop' ▸ h'.path)
      rw [← hstop] at hrest
      exact nomatch hstop.symm.trans (h'.eq_of_append hstop' h hrest).2
    · obtain ⟨rest, rfl, hrest⟩ := Path.exists_rest (hstop' ▸ h'.path) (hstop ▸ h.path)
      rw [← hstop'] at hrest
      exact nomatch hstop'.symm.trans (h.eq_of_append hstop h' hrest).2
    · rcases Path.comparable (hstop ▸ h.path) (hstop' ▸ h'.path) with
        ⟨rest, rfl, hrest⟩ | ⟨rest, rfl, hrest⟩
      · rw [← hstop'] at hrest
        obtain ⟨rfl, hsame⟩ := h.eq_of_append hstop h' hrest
        exact ⟨(List.append_nil _).symm, hsame.symm.trans hstop'⟩
      · rw [← hstop] at hrest
        obtain ⟨rfl, hsame⟩ := h'.eq_of_append hstop' h hrest
        exact ⟨List.append_nil _, hstop.symm.trans hsame⟩
  obtain ⟨rfl, hstop⟩ := heq
  exact ⟨rfl, h.ending_eq h' hstop⟩

end Ends

/-- **An ascent is the way up to its end**, which there is on every way. -/
theorem ends_iff {ending : Ending} :
    catalog.Ends name passed ending ↔ catalog.ascent name = ⟨passed, ending⟩ := by
  constructor
  · intro h
    obtain ⟨hpassed, hending⟩ := (catalog.ends_ascent name).unique h
    exact congrArg₂ Ascent.mk hpassed hending
  · intro h
    have hends := catalog.ends_ascent name
    rw [h] at hends
    exact hends

end Catalog

namespace Layout

variable {layout : Layout}

/-! ### Layouts without repetitions -/

/-- What is left of a list when every attribute is taken out whose full name came before. -/
def firstOccurrences (attributes : List Attribute) : List Attribute :=
  attributes.eraseDupsBy fun attr earlier => attr.fullName == earlier.fullName

/-- Whether an attribute is given a place. -/
def admits (layout : Layout) (attr : Attribute) : Bool :=
  !attr.isStatic && !layout.contains attr.fullName

theorem add_eq (layout : Layout) (attr : Attribute) :
    layout.add attr = if layout.admits attr then layout ++ [attr] else layout := by
  unfold add admits
  rw [← Bool.not_or]
  cases attr.isStatic || layout.contains attr.fullName <;> rfl

/-- One more attribute keeps out those with its name. -/
theorem admits_append_singleton (layout : Layout) (attr other : Attribute) :
    admits (layout ++ [attr]) other
      = (decide ((other.fullName == attr.fullName) = false) && layout.admits other) := by
  unfold admits contains
  by_cases hname : other.fullName = attr.fullName
  · simp [hname]
  · have hname' : (attr.fullName == other.fullName) = false :=
      beq_eq_false_iff_ne.mpr fun h => hname h.symm
    simp [hname, hname']

/-- Adding attributes appends those that are given a place, each full name once. -/
theorem foldl_add_eq (layout : Layout) (declarations : List Attribute) :
    declarations.foldl add layout
      = layout ++ firstOccurrences (declarations.filter layout.admits) := by
  induction declarations generalizing layout with
  | nil => exact (List.append_nil layout).symm
  | cons attr rest ih =>
    rw [List.foldl_cons, ih, add_eq, List.filter_cons]
    split
    · unfold firstOccurrences
      rw [List.eraseDupsBy_cons, List.filter_filter, List.append_assoc, List.singleton_append,
        funext (admits_append_singleton layout attr)]
    · rfl

/-- **A layout** has the instance attributes among its declarations, each full name once. -/
theorem ofDeclarations_eq (declarations : List Attribute) : ofDeclarations declarations
    = firstOccurrences (declarations.filter fun attr => !attr.isStatic) := by
  have hadmits : admits [] = fun attr => !attr.isStatic := funext fun attr => Bool.and_true _
  unfold ofDeclarations
  rw [foldl_add_eq, hadmits, List.nil_append]

/-- A layout without static attributes in which no full name has two places. -/
structure Proper (layout : Layout) : Prop where
  isStatic_eq : ∀ attr ∈ layout, attr.isStatic = false
  nodup : (layout.map Attribute.fullName).Nodup

theorem Proper.add (hp : layout.Proper) (attr : Attribute) : (layout.add attr).Proper := by
  rw [add_eq]
  split
  · next hadmits =>
    unfold admits contains at hadmits
    rw [Bool.and_eq_true, Bool.not_eq_true', Bool.not_eq_true', List.any_eq_false] at hadmits
    refine ⟨fun other hother => ?_, ?_⟩
    · rcases List.mem_append.mp hother with hold | hnew
      · exact hp.isStatic_eq other hold
      · rw [List.mem_singleton.mp hnew]
        exact hadmits.1
    · rw [List.map_append, List.map_singleton, ← List.concat_eq_append, List.nodup_concat]
      refine ⟨fun hmem => ?_, hp.nodup⟩
      obtain ⟨other, hother, hname⟩ := List.mem_map.mp hmem
      exact hadmits.2 other hother (beq_iff_eq.mpr hname)
  · exact hp

theorem proper_ofDeclarations (declarations : List Attribute) :
    (ofDeclarations declarations).Proper := by
  have hfold : ∀ layout : Layout, layout.Proper →
      Proper (declarations.foldl Layout.add layout) := by
    induction declarations with
    | nil => exact fun layout hp => hp
    | cons attr rest ih => exact fun layout hp => ih _ (hp.add attr)
  exact hfold [] ⟨nofun, List.nodup_nil⟩

/-- Every instance attribute that is declared has a place for its full name. -/
theorem exists_mem_ofDeclarations {declarations : List Attribute} {attr : Attribute}
    (hmem : attr ∈ declarations) (hinstance : attr.isStatic = false) :
    ∃ entry ∈ ofDeclarations declarations, entry.fullName = attr.fullName := by
  have hsome : ((ofDeclarations declarations).find? (·.fullName == attr.fullName)).isSome := by
    rw [find?_ofDeclarations, List.find?_isSome]
    exact ⟨attr, hmem, by simp [hinstance]⟩
  obtain ⟨entry, hentry, hname⟩ := List.find?_isSome.mp hsome
  exact ⟨entry, hentry, beq_iff_eq.mp hname⟩

end Layout

/-! ### What is collected -/

/-- The attributes that the classes on a way up declare for their objects, those of the class passed
last in front. -/
def instanceAttributes (passed : List ClassDescription) : List Attribute :=
  (passed.reverse.flatMap (·.attributes)).filter fun attr => !attr.isStatic

/-- What a class is answered whose way up ends so, after some classes. -/
def Ending.answer (passed : List ClassDescription) : Ending → Except ClassError Layout
  | .root => .ok (Layout.firstOccurrences (instanceAttributes passed))
  | .unknown stop => .error (.unknownClass stop)
  | .cyclic stop => .error (.cyclicHierarchy stop)

namespace Catalog

variable {catalog : Catalog} {name : String}

/-- **What the collection of a layout answers.**  The way up comes to a name that no class has, to a
name that it has passed, or past a root class, before any name comes twice, and the answer is that
name in both of the first cases.  In the third it is all that the classes passed declare for their
objects, each full name at its first occurrence. -/
structure Collected (catalog : Catalog) (name : String) (answer : Except ClassError Layout) :
    Prop where
  settled : (∃ stop, answer = .error (.unknownClass stop)) ∨
    (∃ stop, answer = .error (.cyclicHierarchy stop)) ∨ ∃ layout, answer = .ok layout
  unknown_iff : ∀ stop, answer = .error (.unknownClass stop) ↔
    ∃ passed, catalog.Path name passed (some stop) ∧
      (passed.map ClassDescription.name).Nodup ∧ catalog.find? stop = none
  cyclic_iff : ∀ stop, answer = .error (.cyclicHierarchy stop) ↔
    ∃ passed, catalog.Path name passed (some stop) ∧
      (passed.map ClassDescription.name).Nodup ∧ stop ∈ passed.map ClassDescription.name
  message_iff : ∀ stop, (∃ e, answer = .error e ∧
      e.message = "Registration conflict: Cyclic class hierarchy at " ++ stop) ↔
    answer = .error (.cyclicHierarchy stop)
  ok_iff : ∀ layout, answer = .ok layout ↔
    ∃ passed, catalog.Path name passed none ∧
      (passed.map ClassDescription.name).Nodup ∧
      layout = Layout.firstOccurrences (instanceAttributes passed)
  isStatic_eq : ∀ layout, answer = .ok layout → ∀ attr ∈ layout, attr.isStatic = false
  nodup : ∀ layout, answer = .ok layout → (layout.map Attribute.fullName).Nodup
  exists_mem : ∀ layout passed, answer = .ok layout → catalog.Path name passed none →
    ∀ definition ∈ passed, ∀ attr ∈ definition.attributes, attr.isStatic = false →
      ∃ entry ∈ layout, entry.fullName = attr.fullName

/-- The wording of a way that comes round is that of no other ending. -/
theorem eq_cyclicHierarchy_of_message {e : ClassError} {stop : String}
    (h : e.message = "Registration conflict: Cyclic class hierarchy at " ++ stop)
    (hcause : ∃ other, e = .unknownClass other ∨ e = .cyclicHierarchy other) :
    e = .cyclicHierarchy stop := by
  obtain ⟨other, rfl | rfl⟩ := hcause
  · -- the two wordings differ in their first letter
    change "Unknown class: " ++ other = _ at h
    have hfirst := congrArg (fun text : String => text.toList.head?) h
    simp only [String.toList_append] at hfirst
    cases hfirst
  · change "Registration conflict: Cyclic class hierarchy at " ++ other = _ at h
    rw [(String.append_right_inj _).mp h]

theorem Ends.layout_eq {passed : List ClassDescription} {ending : Ending}
    (h : catalog.Ends name passed ending) : catalog.layout name = ending.answer passed := by
  unfold Catalog.layout Ascent.complete
  rw [ends_iff.mp h]
  cases ending with
  | root => exact congrArg Except.ok (Layout.ofDeclarations_eq _)
  | unknown | cyclic => rfl

/-- The way up from a class ends, and so it is answered. -/
theorem exists_ends (catalog : Catalog) (name : String) : ∃ passed ending,
    catalog.Ends name passed ending ∧ catalog.layout name = ending.answer passed :=
  ⟨_, _, catalog.ends_ascent name, (catalog.ends_ascent name).layout_eq⟩

theorem proper_layout {layout : Layout} (h : catalog.layout name = .ok layout) : layout.Proper := by
  rw [layout_eq_ofDeclarations h]
  exact Layout.proper_ofDeclarations _

theorem exists_mem_layout {layout : Layout} (h : catalog.layout name = .ok layout)
    {passed : List ClassDescription} (hpath : catalog.Path name passed none)
    {definition : ClassDescription} (hdefinition : definition ∈ passed) {attr : Attribute}
    (hattr : attr ∈ definition.attributes) (hinstance : attr.isStatic = false) :
    ∃ entry ∈ layout, entry.fullName = attr.fullName := by
  obtain ⟨others, hothers, rfl⟩ := layout_eq_ok_iff.mp h
  obtain rfl := hpath.unique hothers
  exact Layout.exists_mem_ofDeclarations
    (List.mem_flatMap.mpr ⟨definition, List.mem_reverse.mpr hdefinition, hattr⟩) hinstance

theorem layout_eq_unknownClass_iff {stop : String} :
    catalog.layout name = .error (.unknownClass stop) ↔
      ∃ passed, catalog.Ends name passed (.unknown stop) := by
  constructor
  · intro h
    obtain ⟨passed, ending, hends, hanswer⟩ := catalog.exists_ends name
    rw [hanswer] at h
    rcases ending with _ | other | other <;> cases h
    exact ⟨passed, hends⟩
  · rintro ⟨passed, hends⟩
    exact hends.layout_eq

theorem layout_eq_cyclicHierarchy_iff {stop : String} :
    catalog.layout name = .error (.cyclicHierarchy stop) ↔
      ∃ passed, catalog.Ends name passed (.cyclic stop) := by
  constructor
  · intro h
    obtain ⟨passed, ending, hends, hanswer⟩ := catalog.exists_ends name
    rw [hanswer] at h
    rcases ending with _ | other | other <;> cases h
    exact ⟨passed, hends⟩
  · rintro ⟨passed, hends⟩
    exact hends.layout_eq

theorem layout_eq_firstOccurrences_iff {layout : Layout} : catalog.layout name = .ok layout ↔
    ∃ passed, catalog.Ends name passed .root ∧
      layout = Layout.firstOccurrences (instanceAttributes passed) := by
  constructor
  · intro h
    obtain ⟨passed, ending, hends, hanswer⟩ := catalog.exists_ends name
    rw [hanswer] at h
    rcases ending with _ | other | other <;> cases h
    exact ⟨passed, hends, rfl⟩
  · rintro ⟨passed, hends, rfl⟩
    exact hends.layout_eq

theorem collected_layout (catalog : Catalog) (name : String) :
    catalog.Collected name (catalog.layout name) where
  settled := by
    obtain ⟨passed, ending, -, hanswer⟩ := catalog.exists_ends name
    rw [hanswer]
    rcases ending with _ | stop | stop
    · exact Or.inr (Or.inr ⟨_, rfl⟩)
    · exact Or.inl ⟨stop, rfl⟩
    · exact Or.inr (Or.inl ⟨stop, rfl⟩)
  unknown_iff stop := by
    rw [layout_eq_unknownClass_iff]
    exact exists_congr fun passed =>
      ⟨fun h => ⟨h.path, h.nodup, h.holds⟩, fun ⟨hpath, hnodup, hnone⟩ => ⟨hpath, hnodup, hnone⟩⟩
  cyclic_iff stop := by
    rw [layout_eq_cyclicHierarchy_iff]
    -- nothing was passed before the way began, so the name has come on the way itself
    exact exists_congr fun passed =>
      ⟨fun h => ⟨h.path, h.nodup, h.holds.resolve_left List.not_mem_nil⟩,
        fun ⟨hpath, hnodup, hmem⟩ => ⟨hpath, hnodup, Or.inr hmem⟩⟩
  message_iff stop := by
    constructor
    · rintro ⟨e, he, hmessage⟩
      rw [he, eq_cyclicHierarchy_of_message hmessage (eq_of_layout_eq_error he)]
    · exact fun h => ⟨_, h, rfl⟩
  ok_iff layout := by
    rw [layout_eq_firstOccurrences_iff]
    exact exists_congr fun passed =>
      ⟨fun ⟨h, hlayout⟩ => ⟨h.path, h.nodup, hlayout⟩,
        fun ⟨hpath, hnodup, hlayout⟩ => ⟨⟨hpath, hnodup, trivial⟩, hlayout⟩⟩
  isStatic_eq layout h := (proper_layout h).isStatic_eq
  nodup layout h := (proper_layout h).nodup
  exists_mem layout passed h hpath definition hdefinition attr :=
    exists_mem_layout h hpath hdefinition

end Catalog

namespace Registry

theorem collect_fst (registry : Registry) (name : String) :
    (registry.collect name).1 = registry.catalog.layout name := by
  unfold collect
  cases registry.catalog.layout name <;> rfl

/-- **The first registration of a class** collects its layout, whatever else is kept: it is answered
by how the way up from the class ends, and by the instance attributes on the way if that is at a
root class. -/
theorem collected_of_entry?_eq_none {registry : Registry} {name : String}
    (h : registry.entry? name = none) :
    registry.catalog.Collected name (registry.require name).1 ∧
      registry.catalog.Collected name (registry.register name).1 := by
  have hregister : registry.register name = registry.collect name := by
    unfold register
    rw [h]
  rw [require_of_none h, hregister, collect_fst]
  exact ⟨registry.catalog.collected_layout name, registry.catalog.collected_layout name⟩

/-- A way into a ring that does not lead back to where it began, beside a root class that declares
one of its attributes twice. -/
def lasso : Catalog :=
  (((Catalog.empty.define ⟨"Root", none,
      [⟨"Root", "id", .scalar .long, false⟩, ⟨"Root", "id", .scalar .int, false⟩,
        ⟨"Root", "count", .scalar .int, true⟩]⟩).define
    ⟨"A", some "B", []⟩).define ⟨"B", some "A", []⟩).define ⟨"C", some "A", []⟩

/-- The name that comes first for the second time is not the one that was asked for. -/
theorem collected_of_lasso :
    entry? (after lasso [.require "Root"]) "Root" = some [⟨"Root", "id", .scalar .long, false⟩] ∧
      (require (after lasso [.require "Root"]) "C").1 = .error (.cyclicHierarchy "A") ∧
      (after lasso [.require "Root"]).catalog.Collected "C"
        (require (after lasso [.require "Root"]) "C").1 ∧
      (after lasso [.require "Root"]).catalog.Collected "C"
        (register (after lasso [.require "Root"]) "C").1 := by
  have hkept : entry? (after lasso [.require "Root"]) "Root"
      = some [⟨"Root", "id", .scalar .long, false⟩] := by cbv
  have hanswer : (require (after lasso [.require "Root"]) "C").1
      = .error (.cyclicHierarchy "A") := by cbv
  have hnone : entry? (after lasso [.require "Root"]) "C" = none := by cbv
  exact ⟨hkept, hanswer, collected_of_entry?_eq_none hnone⟩

end Registry

end HandleHeap
