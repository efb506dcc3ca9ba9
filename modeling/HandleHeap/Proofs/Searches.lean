import HandleHeap.Proofs.Collections
import HandleHeap.Proofs.Inheritance

/-!
# Searches for a superclass

To find out whether a class extends another, one goes up from it until the other is met.  The search
looks at three things at every name: whether it is the one looked for, whether it was passed before,
and which class comes next.  The collection of a layout looks at the last two only.  A search can
thus succeed on a way on which the collection fails, and on all other ways the two end alike.

* `Search`, `Search.turn`: a search on its way up, and one turn of it;
* `Search.Settles`, `Search.settles_iff`: every search is settled after finitely many turns, with
  the answer of `Catalog.isSubclass`;
* `Catalog.Path.next_of_mem`: on a way that has ended nothing new comes above the names passed;
* `Catalog.isSubclass_eq_true_iff`: a search succeeds exactly if there is a way up to the name;
* `Catalog.isSubclass_of_not_inherits`: otherwise it is answered as the collection of a layout is;
* `Catalog.Inherits.antisymm`: classes with a layout do not extend each other;
* `Catalog.TestsInheritance`, `Catalog.testsInheritance`: what the answers of searches say.
-/

namespace HandleHeap

/-! ### Turns of a search -/

/-- A search on its way up: the names passed, and the name that it has come to, or none if it has
come past a root class. -/
structure Search where
  /-- The names passed, the last one in front. -/
  passed : List String
  /-- The name come to. -/
  current : Option String

namespace Search

/-- The search that begins at a class. -/
def start (name : String) : Search := ⟨[], some name⟩

/-- One turn of a search for a name: it is settled with an answer, or it goes on. -/
def turn (catalog : Catalog) (ancestor : String) (search : Search) :
    Except ClassError Bool ⊕ Search :=
  match search.current with
  | none => .inl (.ok false)
  | some name =>
    if name = ancestor then .inl (.ok true)
    else if name ∈ search.passed then .inl (.error (.cyclicHierarchy name))
    else match catalog.superclass name with
      | .error e => .inl (.error e)
      | .ok parent => .inr ⟨name :: search.passed, parent⟩

/-- A search is settled with an answer after finitely many turns. -/
inductive Settles (catalog : Catalog) (ancestor : String) :
    Search → Except ClassError Bool → Prop where
  | now {search : Search} {answer : Except ClassError Bool}
      (settled : search.turn catalog ancestor = .inl answer) :
      Settles catalog ancestor search answer
  | later {search next : Search} {answer : Except ClassError Bool}
      (goes_on : search.turn catalog ancestor = .inr next)
      (rest : Settles catalog ancestor next answer) : Settles catalog ancestor search answer

variable {catalog : Catalog} {ancestor : String}

theorem Settles.unique {search : Search} {answer other : Except ClassError Bool}
    (h : search.Settles catalog ancestor answer) (h' : search.Settles catalog ancestor other) :
    answer = other := by
  induction h with
  | now settled =>
    cases h' with
    | now settled' => exact Sum.inl.inj (settled.symm.trans settled')
    | later goes_on' _ => cases settled.symm.trans goes_on'
  | later goes_on _ ih =>
    cases h' with
    | now settled' => cases goes_on.symm.trans settled'
    | later goes_on' rest' =>
      cases goes_on.symm.trans goes_on'
      exact ih rest'

theorem turn_of_eq {search : Search} (h : search.current = some ancestor) :
    search.turn catalog ancestor = .inl (.ok true) := by
  unfold turn
  rw [h]
  exact if_pos rfl

theorem turn_of_mem {search : Search} {name : String} (h : search.current = some name)
    (hne : name ≠ ancestor) (hmem : name ∈ search.passed) :
    search.turn catalog ancestor = .inl (.error (.cyclicHierarchy name)) := by
  unfold turn
  rw [h]
  exact (if_neg hne).trans (if_pos hmem)

theorem turn_of_not_mem {search : Search} {name : String} (h : search.current = some name)
    (hne : name ≠ ancestor) (hmem : name ∉ search.passed) :
    search.turn catalog ancestor = match catalog.superclass name with
      | .error e => .inl (.error e)
      | .ok parent => .inr ⟨name :: search.passed, parent⟩ := by
  unfold turn
  rw [h]
  exact (if_neg hne).trans (if_neg hmem)

end Search

namespace Ascent

/-- What a search for a name is answered that follows this way up. -/
def test (ascent : Ascent) (ancestor : String) : Except ClassError Bool :=
  if ascent.meets ancestor then .ok true else ascent.complete.map fun _ => false

theorem meets_iff {ascent : Ascent} {ancestor : String} : ascent.meets ancestor = true ↔
    ancestor ∈ ascent.passed.map ClassDescription.name ∨ ascent.ending = .unknown ancestor := by
  unfold meets
  rw [Bool.or_eq_true, List.any_eq_true, beq_iff_eq, List.mem_map]
  simp only [beq_iff_eq]

theorem test_of_meets {ascent : Ascent} {ancestor : String} (h : ascent.meets ancestor = true) :
    ascent.test ancestor = .ok true := if_pos h

theorem test_of_not_meets {ascent : Ascent} {ancestor : String}
    (h : ¬ ascent.meets ancestor = true) :
    ascent.test ancestor = ascent.complete.map fun _ => false := if_neg h

/-- Above a class that is not looked for, the answer is found on the rest of the way. -/
theorem test_cons {definition : ClassDescription} {passed : List ClassDescription} {ending : Ending}
    {ancestor : String} (hne : definition.name ≠ ancestor) :
    test ⟨definition :: passed, ending⟩ ancestor = test ⟨passed, ending⟩ ancestor := by
  have hmeets :
      meets ⟨definition :: passed, ending⟩ ancestor = meets ⟨passed, ending⟩ ancestor := by
    unfold meets
    rw [List.any_cons, beq_eq_false_iff_ne.mpr hne, Bool.false_or]
  unfold test
  rw [hmeets]
  cases ending <;> rfl

end Ascent

namespace Catalog

variable {catalog : Catalog} {name other ancestor : String}

theorem superclass_of_find?_none (h : catalog.find? name = none) :
    catalog.superclass name = .error (.unknownClass name) := by
  unfold superclass lookup
  rw [h]
  rfl

theorem superclass_of_find?_some {definition : ClassDescription}
    (h : catalog.find? name = some definition) :
    catalog.superclass name = .ok definition.superclass := by
  unfold superclass lookup
  rw [h]
  rfl

/-- A way up meets the name at which it begins. -/
theorem meets_ascentFrom_self {visited : List String} (unseen : List ClassDescription)
    (hfresh : name ∉ visited) : (ascentFrom visited unseen name).meets name = true := by
  rw [Ascent.meets_iff]
  unfold ascentFrom
  rw [if_neg fun hmem => hfresh (List.contains_iff_mem.mp hmem)]
  split
  · exact Or.inr rfl
  · next definition hfound =>
    have hname := List.find?_some hfound
    rw [beq_iff_eq] at hname
    subst hname
    split <;> exact Or.inl List.mem_cons_self

/-- **A search follows the ascent**, if it has not come past the name looked for before. -/
theorem settles_ascentFrom (visited : List String) (unseen : List ClassDescription) (name : String)
    (h : ∀ other, other ∉ visited → unseen.find? (·.name == other) = catalog.find? other)
    (hfresh : ancestor ∉ visited) : Search.Settles catalog ancestor ⟨visited, some name⟩
      ((ascentFrom visited unseen name).test ancestor) := by
  have harrived : ∀ {visited : List String} (unseen : List ClassDescription),
      ancestor ∉ visited → Search.Settles catalog ancestor ⟨visited, some ancestor⟩
        ((ascentFrom visited unseen ancestor).test ancestor) := fun unseen hfresh => by
    rw [Ascent.test_of_meets (meets_ascentFrom_self unseen hfresh)]
    exact .now (Search.turn_of_eq rfl)
  by_cases hsame : name = ancestor
  · subst hsame
    exact harrived unseen hfresh
  fun_induction ascentFrom visited unseen name with
  | case1 visited unseen name hvisited =>
    exact .now (Search.turn_of_mem rfl hsame (List.contains_iff_mem.mp hvisited))
  | case2 visited unseen name hvisited hnone =>
    rw [List.contains_iff_mem] at hvisited
    have hmeets : ¬ Ascent.meets ⟨[], .unknown name⟩ ancestor = true := by
      rw [Ascent.meets_iff]
      rintro (hmem | hending)
      · exact List.not_mem_nil hmem
      · exact hsame (Ending.unknown.inj hending)
    refine .now ((Search.turn_of_not_mem rfl hsame hvisited).trans ?_)
    rw [superclass_of_find?_none ((h name hvisited).symm.trans hnone),
      Ascent.test_of_not_meets hmeets]
    rfl
  | case3 visited unseen name hvisited definition hfound htop =>
    rw [List.contains_iff_mem] at hvisited
    have hdefinition := (h name hvisited).symm.trans hfound
    have hturn : Search.turn catalog ancestor ⟨visited, some name⟩
        = .inr ⟨name :: visited, none⟩ := by
      rw [Search.turn_of_not_mem rfl hsame hvisited, superclass_of_find?_some hdefinition, htop]
    rw [Ascent.test_cons fun hname => hsame ((name_of_find? hdefinition).symm.trans hname)]
    exact .later hturn (.now rfl)
  | case4 visited unseen name hvisited definition hfound parent hparent above ih =>
    rw [List.contains_iff_mem] at hvisited
    have hdefinition := (h name hvisited).symm.trans hfound
    have hturn : Search.turn catalog ancestor ⟨visited, some name⟩
        = .inr ⟨name :: visited, some parent⟩ := by
      rw [Search.turn_of_not_mem rfl hsame hvisited, superclass_of_find?_some hdefinition, hparent]
    have habove : ancestor ∉ name :: visited := fun hmem =>
      (List.mem_cons.mp hmem).elim (fun hname => hsame hname.symm) hfresh
    rw [Ascent.test_cons fun hname => hsame ((name_of_find? hdefinition).symm.trans hname)]
    refine .later hturn ?_
    by_cases hmet : parent = ancestor
    · subst hmet
      exact harrived _ habove
    · refine ih (fun other hother => ?_) habove hmet
      rw [List.mem_cons, not_or] at hother
      rw [find?_others hother.1, h other hother.2]

theorem isSubclass_eq_test (catalog : Catalog) (name ancestor : String) :
    catalog.isSubclass name ancestor = (catalog.ascent name).test ancestor := rfl

end Catalog

/-- **Every search is settled**, after finitely many turns, with one answer. -/
theorem Search.settles_iff {catalog : Catalog} {name ancestor : String}
    {answer : Except ClassError Bool} : (start name).Settles catalog ancestor answer ↔
      catalog.isSubclass name ancestor = answer := by
  have hsettles : (start name).Settles catalog ancestor (catalog.isSubclass name ancestor) :=
    Catalog.settles_ascentFrom [] catalog.definitions name (fun _ _ => rfl) List.not_mem_nil
  exact ⟨fun h => hsettles.unique h, fun h => h ▸ hsettles⟩

/-! ### What is met on the way up -/

namespace Catalog

variable {catalog : Catalog} {name other ancestor : String}

theorem Path.inherits {passed : List ClassDescription} {end' : Option String}
    (h : catalog.Path name passed end') :
    (∀ other ∈ passed.map ClassDescription.name, catalog.Inherits name other) ∧
      ∀ stop, end' = some stop → catalog.Inherits name stop := by
  induction h with
  | here name => exact ⟨nofun, fun stop hstop => Option.some.inj hstop ▸ .refl⟩
  | root found top =>
    refine ⟨fun other hother => ?_, nofun⟩
    rw [List.map_singleton, List.mem_singleton, name_of_find? found] at hother
    exact hother ▸ .refl
  | up found parent_eq above ih =>
    have hstep := extends_iff.mpr ⟨_, found, parent_eq⟩
    refine ⟨fun other hother => ?_, fun stop hstop => .head hstep (ih.2 stop hstop)⟩
    rw [List.map_cons, List.mem_cons, name_of_find? found] at hother
    rcases hother with rfl | hother
    · exact .refl
    · exact .head hstep (ih.1 other hother)

/-- A way ends where it begins or passes it. -/
theorem Path.mem_or_eq {passed : List ClassDescription} {end' : Option String}
    (h : catalog.Path name passed end') :
    name ∈ passed.map ClassDescription.name ∨ end' = some name := by
  cases h with
  | here => exact Or.inr rfl
  | root found _ | up found _ _ => exact Or.inl (name_of_find? found ▸ List.mem_cons_self)

/-- Above a name passed there is another one, or the one at which the way ends. -/
theorem Path.next_of_mem {passed : List ClassDescription} {end' : Option String}
    (h : catalog.Path name passed end') (hmem : other ∈ passed.map ClassDescription.name)
    {parent : String} (hstep : catalog.Extends other parent) :
    parent ∈ passed.map ClassDescription.name ∨ end' = some parent := by
  obtain ⟨definition, found, parent_eq⟩ := extends_iff.mp hstep
  induction h with
  | here => cases hmem
  | root found' top =>
    rw [List.map_singleton, List.mem_singleton, name_of_find? found'] at hmem
    subst hmem
    cases found.symm.trans found'
    cases parent_eq.symm.trans top
  | up found' parent_eq' above ih =>
    rw [List.map_cons, List.mem_cons, name_of_find? found'] at hmem
    refine Or.imp_left (List.mem_cons_of_mem _) ?_
    rcases hmem with rfl | hmem
    · cases found.symm.trans found'
      cases parent_eq.symm.trans parent_eq'
      exact above.mem_or_eq
    · exact ih hmem

/-- **All that a class extends is met on the way up** to its end, also where the way comes round. -/
theorem Ends.mem_of_inherits {passed : List ClassDescription} {ending : Ending}
    (h : catalog.Ends name passed ending) (hinherits : catalog.Inherits name other) :
    other ∈ passed.map ClassDescription.name ∨ ending = .unknown other := by
  -- from the name at which the way ends one comes to nothing, or to a name passed
  have hend : ∀ {stop : String}, ending.stop = some stop →
      stop ∈ passed.map ClassDescription.name ∨ ending = .unknown stop := by
    intro stop hstop
    have hholds := h.holds
    rcases ending with _ | unknown | cyclic <;> cases hstop
    · exact Or.inr rfl
    · exact Or.inl (hholds.resolve_left List.not_mem_nil)
  induction hinherits with
  | refl => exact h.path.mem_or_eq.elim Or.inl hend
  | tail _ hstep ih =>
    rcases ih with hmem | rfl
    · exact (h.path.next_of_mem hmem hstep).elim Or.inl hend
    · obtain ⟨definition, found, -⟩ := extends_iff.mp hstep
      exact nomatch found.symm.trans (show catalog.find? _ = none from h.holds)

theorem meets_ascent_iff : (catalog.ascent name).meets other = true ↔
    catalog.Inherits name other := by
  have hends := catalog.ends_ascent name
  rw [Ascent.meets_iff]
  constructor
  · rintro (hmem | hending)
    · exact hends.path.inherits.1 other hmem
    · exact hends.path.inherits.2 other (congrArg Ending.stop hending)
  · exact hends.mem_of_inherits

/-! ### Answers -/

/-- **A search succeeds exactly if there is a way up to the name looked for.** -/
theorem isSubclass_eq_true_iff :
    catalog.isSubclass name other = .ok true ↔ catalog.Inherits name other := by
  rw [isSubclass_eq_test, ← meets_ascent_iff]
  constructor
  · intro h
    by_contra hmeets
    rw [Ascent.test_of_not_meets hmeets] at h
    rcases hcomplete : (catalog.ascent name).complete with e | passed
    · rw [hcomplete] at h; cases h
    · rw [hcomplete] at h; cases h
  · exact Ascent.test_of_meets

/-- **A search in vain is answered as the collection of a layout is.** -/
theorem isSubclass_of_not_inherits (h : ¬ catalog.Inherits name other) :
    catalog.isSubclass name other = (catalog.layout name).map fun _ => false := by
  rw [isSubclass_eq_test, Ascent.test_of_not_meets (fun hmeets => h (meets_ascent_iff.mp hmeets))]
  unfold layout
  cases (catalog.ascent name).complete <;> rfl

theorem Path.append {passed others : List ClassDescription} {end' : Option String}
    (h : catalog.Path name passed (some other)) (h' : catalog.Path other others end') :
    catalog.Path name (passed ++ others) end' := by
  generalize hstop : some other = stop at h
  induction h with
  | here => cases hstop; exact h'
  | root => cases hstop
  | up found parent_eq _ ih => exact .up found parent_eq (ih hstop)

/-- **Classes with a layout do not extend each other.** -/
theorem Inherits.antisymm {layout : Layout} (hlayout : catalog.layout name = .ok layout)
    (h : catalog.Inherits name other) (h' : catalog.Inherits other name) : name = other := by
  obtain ⟨passed, hpath⟩ := h.exists_path
  obtain ⟨others, hback⟩ := h'.exists_path
  obtain ⟨all, hall, -⟩ := layout_eq_ok_iff.mp hlayout
  -- the way there and back would be a way round
  have hround := hall.not_mem_of_none (hpath.append hback)
  cases hpath with
  | here => rfl
  | up found _ _ =>
    rw [List.cons_append, List.map_cons, name_of_find? found] at hround
    exact absurd List.mem_cons_self hround

/-- What searches are answered in a catalog, whatever its classes extend. -/
structure TestsInheritance (catalog : Catalog) : Prop where
  /-- Taken turn by turn, a search comes to the answer, and to no other. -/
  settles_iff : ∀ name ancestor answer, (Search.start name).Settles catalog ancestor answer ↔
    catalog.isSubclass name ancestor = answer
  true_iff : ∀ name ancestor,
    catalog.isSubclass name ancestor = .ok true ↔ catalog.Inherits name ancestor
  false_iff : ∀ name ancestor, ¬ catalog.Inherits name ancestor →
    (catalog.isSubclass name ancestor = .ok false ↔ ∃ layout, catalog.layout name = .ok layout)
  /-- A search that fails says what the first registration of the class says. -/
  error_iff : ∀ name ancestor, ¬ catalog.Inherits name ancestor → ∀ requests,
    Registry.entry? (Registry.after catalog requests) name = none → ∀ e,
      (catalog.isSubclass name ancestor = .error e ↔
        ((Registry.after catalog requests).register name).1 = .error e)
  refl : ∀ name, catalog.isSubclass name name = .ok true
  trans : ∀ low middle high, catalog.isSubclass low middle = .ok true →
    catalog.isSubclass middle high = .ok true → catalog.isSubclass low high = .ok true
  /-- Of two classes that extend each other, neither is registered. -/
  antisymm : ∀ requests name other layout,
    ((Registry.after catalog requests).register name).1 = .ok layout →
      catalog.isSubclass name other = .ok true → catalog.isSubclass other name = .ok true →
        name = other

/-- **Searches tell what can be reached**, and where it cannot be they agree with registration. -/
theorem testsInheritance (catalog : Catalog) : catalog.TestsInheritance where
  settles_iff name ancestor answer := Search.settles_iff
  true_iff name ancestor := isSubclass_eq_true_iff
  false_iff name ancestor hinherits := by
    rw [isSubclass_of_not_inherits hinherits]
    rcases catalog.layout name with e | layout
    · exact ⟨nofun, nofun⟩
    · exact ⟨fun _ => ⟨layout, rfl⟩, fun _ => rfl⟩
  error_iff name ancestor hinherits requests hnone e := by
    rw [isSubclass_of_not_inherits hinherits,
      (Registry.faithful_after catalog requests).register_fst hnone]
    rcases catalog.layout name with e' | layout
    · exact ⟨fun h => congrArg Except.error (Except.error.inj h),
        fun h => congrArg Except.error (Except.error.inj h)⟩
    · exact ⟨nofun, nofun⟩
  refl name := isSubclass_eq_true_iff.mpr .refl
  trans low middle high := by
    simp only [isSubclass_eq_true_iff]
    exact Relation.ReflTransGen.trans
  antisymm requests name other layout hmade := by
    simp only [isSubclass_eq_true_iff]
    have hlayout : catalog.layout name = .ok layout := Registry.layout_of_made (Or.inl hmade)
    exact Inherits.antisymm hlayout

/-- A name that no class has is found where it is extended, and stops every other search. -/
example : (Catalog.empty.define ⟨"A", some "B", []⟩).isSubclass "A" "B" = .ok true ∧
    (Catalog.empty.define ⟨"A", some "B", []⟩).isSubclass "A" "C" = .error (.unknownClass "B") := by
  constructor <;> cbv

end Catalog

end HandleHeap
