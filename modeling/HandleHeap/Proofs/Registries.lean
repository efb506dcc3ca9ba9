import HandleHeap.Object
import HandleHeap.Proofs.Layouts

/-!
# Runs of registries

A registry keeps the layouts that it is asked for.  A layout that has been made once stays as it is,
a class without a layout leaves no trace, and what is kept shows in no answer but those of requests
that ask for it.

* `Registry.Request`, `Registry.perform`: requests to a registry, what they are answered and the
  registry that they leave;
* `Registry.Request.target`: the class whose layout a request needs;
* `Registry.Faithful`: the layouts kept are those of their classes, which every request preserves;
* `Registry.Faithful.answer_eq`: registries of one catalog answer alike, whatever they keep;
* `Registry.entry?_after`: what is kept after a run;
* `Registry.WriteOnce`, `Registry.writeOnce_after`: what is true after every run of requests.
-/

namespace HandleHeap

/-- The refusals that report a conflict of registrations. -/
def ClassError.IsConflict : ClassError → Prop
  | cyclicHierarchy _ | alreadyRegistered _ | missingAttribute .. => True
  | unknownClass _ | notAnInstanceAttribute _ | invalidOffset .. | typeMismatch .. => False

/-- A class has no layout because a name is unknown or because the way up comes round. -/
theorem Catalog.eq_of_layout_eq_error {catalog : Catalog} {name : String} {e : ClassError}
    (h : catalog.layout name = .error e) :
    ∃ other, e = .unknownClass other ∨ e = .cyclicHierarchy other := by
  unfold Catalog.layout Ascent.complete at h
  rcases hending : (catalog.ascent name).ending with _ | other | other
  · rw [hending] at h; cases h
  · rw [hending] at h; cases h; exact ⟨other, Or.inl rfl⟩
  · rw [hending] at h; cases h; exact ⟨other, Or.inr rfl⟩

namespace Registry

/-! ### Requests and answers -/

/-- A request to a registry. -/
inductive Request where
  | require (name : String)
  | register (name : String)
  | offset (name : String) (attr : AttributeName)
  | offsets (name : String) (attributes : List AttributeName)
  | offsetsOf (attributes : List AttributeName)
  | instantiate (name : String)
  | narrowest (attributes : List AttributeName)
  | entry (name : String)
  /-- The number of layouts kept, and with it whether there are any. -/
  | size
deriving DecidableEq, Repr

/-- What a request is answered. -/
inductive Answer where
  | layout (layout : Layout)
  | offset (offset : Nat)
  | offsets (offsets : List Nat)
  | object (object : Object)
  | narrowest (name : Option String)
  | entry (layout : Option Layout)
  | size (size : Nat)
deriving DecidableEq

/-- The answer of a request, beside the registry that it leaves. -/
def perform (registry : Registry) : Request → Except ClassError Answer × Registry
  | .require name => Prod.map (Except.map .layout) id (registry.require name)
  | .register name => Prod.map (Except.map .layout) id (registry.register name)
  | .offset name attr => Prod.map (Except.map .offset) id (registry.offset name attr)
  | .offsets name attributes =>
    Prod.map (Except.map .offsets) id (registry.offsets name attributes)
  | .offsetsOf attributes => Prod.map (Except.map .offsets) id (registry.offsetsOf attributes)
  | .instantiate name => Prod.map (Except.map .object) id (registry.instantiate name)
  | .narrowest attributes => ((registry.catalog.narrowest attributes).map .narrowest, registry)
  | .entry name => (.ok <| .entry <| registry.entry? name, registry)
  | .size => (.ok (.size registry.size), registry)

/-- The registry after a run of requests on one without layouts. -/
def after (catalog : Catalog) (requests : List Request) : Registry :=
  requests.foldl (fun registry request => (registry.perform request).2) (fresh catalog)

namespace Request

/-- The class whose layout a request needs, if it needs one. -/
def target (catalog : Catalog) : Request → Option String
  | require name | register name | offset name _ | offsets name _ | instantiate name => some name
  | offsetsOf attributes => (catalog.narrowest attributes).toOption.join
  | narrowest _ | entry _ | size => none

theorem target_offsetsOf_iff {catalog : Catalog} {attributes : List AttributeName}
    {name : String} : (offsetsOf attributes).target catalog = some name ↔
      catalog.narrowest attributes = .ok (some name) := by
  change (catalog.narrowest attributes).toOption.join = some name ↔ _
  rcases catalog.narrowest attributes with e | _ | narrowest
  · exact ⟨nofun, nofun⟩
  · exact ⟨nofun, nofun⟩
  · exact ⟨fun h => congrArg Except.ok h, fun h => Except.ok.inj h⟩

/-- The answer depends on what is kept. -/
def TellsKept : Request → Prop
  | register _ | entry _ | size => True
  | require _ | offset .. | offsets .. | offsetsOf _ | instantiate _ | narrowest _ => False

end Request

/-! ### One request -/

/-- **The invariant of a registry**: every layout kept is that of its class. -/
structure Faithful (catalog : Catalog) (registry : Registry) : Prop where
  catalog_eq : registry.catalog = catalog
  layout_eq : ∀ name layout, registry.entry? name = some layout →
    catalog.layout name = .ok layout

theorem faithful_fresh (catalog : Catalog) : (fresh catalog).Faithful catalog :=
  ⟨rfl, fun _ _ h => nomatch h⟩

theorem require_of_some {registry : Registry} {name : String} {kept : Layout}
    (hentry : registry.entry? name = some kept) : registry.require name = (.ok kept, registry) := by
  unfold require
  rw [hentry]

theorem require_of_none {registry : Registry} {name : String}
    (hentry : registry.entry? name = none) : registry.require name = registry.collect name := by
  unfold require
  rw [hentry]

theorem register_of_some {registry : Registry} {name : String} {kept : Layout}
    (hentry : registry.entry? name = some kept) :
    registry.register name = (.error (.alreadyRegistered name), registry) := by
  unfold register
  rw [hentry]

/-- Every request asks at most for one layout, and leaves what that leaves. -/
theorem perform_snd (registry : Registry) (request : Request) :
    (registry.perform request).2 = match request.target registry.catalog with
      | none => registry
      | some name => (registry.require name).2 := by
  cases request with
  | register name =>
    change (registry.register name).2 = (registry.require name).2
    unfold register require
    cases registry.entry? name <;> rfl
  | offsetsOf attributes =>
    change (registry.offsetsOf attributes).2 =
      match (registry.catalog.narrowest attributes).toOption.join with
      | none => registry
      | some name => (registry.require name).2
    unfold offsetsOf
    rcases registry.catalog.narrowest attributes with e | _ | name <;> rfl
  | _ => rfl

section faithful
variable {catalog : Catalog} {registry : Registry} (h : registry.Faithful catalog) {name : String}
include h

theorem Faithful.require_fst (name : String) : (registry.require name).1 = catalog.layout name := by
  rcases hentry : registry.entry? name with _ | layout
  · rw [require_of_none hentry]
    unfold collect
    rw [h.catalog_eq]
    cases catalog.layout name <;> rfl
  · rw [require_of_some hentry]
    exact (h.layout_eq name layout hentry).symm

theorem Faithful.register_fst (hnone : registry.entry? name = none) :
    (registry.register name).1 = catalog.layout name := by
  unfold register
  rw [hnone, ← h.require_fst, require_of_none hnone]

/-- A class without a layout leaves no trace. -/
theorem Faithful.require_snd_of_error {e : ClassError} (he : catalog.layout name = .error e) :
    registry.entry? name = none ∧ (registry.require name).2 = registry := by
  have hnone : registry.entry? name = none := by
    rw [Option.eq_none_iff_forall_ne_some]
    intro layout hentry
    cases he.symm.trans (h.layout_eq name layout hentry)
  refine ⟨hnone, ?_⟩
  rw [require_of_none hnone]
  unfold collect
  rw [h.catalog_eq, he]

/-- **A layout asked for is kept**, and all others stay as they are. -/
theorem Faithful.entry?_require (other : String) : entry? (registry.require name).2 other =
    if other = name then (catalog.layout name).toOption else registry.entry? other := by
  rcases hlayout : catalog.layout name with e | layout
  · obtain ⟨hnone, hsame⟩ := h.require_snd_of_error hlayout
    rw [hsame]
    split
    · next hother => rw [hother, hnone]; rfl
    · rfl
  · rcases hentry : registry.entry? name with _ | kept
    · rw [require_of_none hentry]
      unfold collect
      rw [h.catalog_eq, hlayout]
      unfold entry?
      rw [List.lookup_cons]
      split
      · next hother => rw [if_pos (beq_iff_eq.mp hother)]; rfl
      · next hother => rw [if_neg (beq_eq_false_iff_ne.mp hother)]
    · have hkept := h.layout_eq name kept hentry
      rw [hlayout] at hkept
      cases hkept
      rw [require_of_some hentry]
      split
      · next hother => rw [hother, hentry]; rfl
      · rfl

theorem Faithful.catalog_require : (registry.require name).2.catalog = catalog := by
  rw [← h.catalog_eq]
  rcases hentry : registry.entry? name with _ | kept
  · rw [require_of_none hentry]
    unfold collect
    cases registry.catalog.layout name <;> rfl
  · rw [require_of_some hentry]

/-- What is kept of a class after a request. -/
theorem Faithful.entry?_perform (request : Request) (name : String) :
    entry? (registry.perform request).2 name =
      if request.target catalog = some name then (catalog.layout name).toOption
      else registry.entry? name := by
  rw [perform_snd, h.catalog_eq]
  rcases request.target catalog with _ | target
  · rfl
  · dsimp only
    rw [h.entry?_require]
    by_cases hname : name = target
    · rw [if_pos hname, if_pos (congrArg some hname.symm), hname]
    · rw [if_neg hname, if_neg fun heq => hname (Option.some.inj heq).symm]

theorem Faithful.perform (request : Request) : (registry.perform request).2.Faithful catalog := by
  refine ⟨?_, fun name layout hentry => ?_⟩
  · rw [perform_snd]
    split
    · exact h.catalog_eq
    · exact h.catalog_require
  · rw [h.entry?_perform] at hentry
    split at hentry
    · rcases hlayout : catalog.layout name with e | made
      · rw [hlayout] at hentry; cases hentry
      · rw [hlayout] at hentry; cases hentry; rfl
    · exact h.layout_eq name layout hentry

/-! ### Answers -/

theorem Faithful.offset_fst (name : String) (attr : AttributeName) :
    (registry.offset name attr).1 =
      (catalog.layout name).bind fun layout => catalog.offsetIn layout name attr := by
  change ((registry.require name).1.bind fun layout =>
    (registry.require name).2.catalog.offsetIn layout name attr) = _
  rw [h.require_fst, h.catalog_require]

theorem Faithful.offsets_fst (name : String) (attributes : List AttributeName) :
    (registry.offsets name attributes).1 = (catalog.layout name).bind fun layout =>
      attributes.mapM (catalog.offsetIn layout name) := by
  change ((registry.require name).1.bind fun layout =>
    attributes.mapM ((registry.require name).2.catalog.offsetIn layout name)) = _
  rw [h.require_fst, h.catalog_require]

theorem Faithful.instantiate_fst (name : String) :
    (registry.instantiate name).1 = (catalog.layout name).map (Object.fresh name) := by
  change (registry.require name).1.map (Object.fresh name) = _
  rw [h.require_fst]

theorem Faithful.offsetsOf_fst (attributes : List AttributeName) :
    (registry.offsetsOf attributes).1 = (catalog.narrowest attributes).bind fun narrowest =>
      match narrowest with
      | none => .ok []
      | some name => (catalog.layout name).bind fun layout =>
        attributes.mapM (catalog.offsetIn layout name) := by
  unfold offsetsOf
  rw [h.catalog_eq]
  rcases catalog.narrowest attributes with e | _ | name
  · rfl
  · rfl
  · exact h.offsets_fst name attributes

/-- **Registries of one catalog answer alike**, whatever they keep, unless they are asked what they
keep. -/
theorem Faithful.answer_eq {other : Registry} (hother : other.Faithful catalog)
    {request : Request} (hrequest : ¬ request.TellsKept) :
    (registry.perform request).1 = (other.perform request).1 := by
  cases request with
  | require name =>
    exact congrArg (Except.map Answer.layout)
      ((h.require_fst name).trans (hother.require_fst name).symm)
  | offset name attr =>
    exact congrArg (Except.map Answer.offset)
      ((h.offset_fst name attr).trans (hother.offset_fst name attr).symm)
  | offsets name attributes =>
    exact congrArg (Except.map Answer.offsets)
      ((h.offsets_fst name attributes).trans (hother.offsets_fst name attributes).symm)
  | offsetsOf attributes =>
    exact congrArg (Except.map Answer.offsets)
      ((h.offsetsOf_fst attributes).trans (hother.offsetsOf_fst attributes).symm)
  | instantiate name =>
    exact congrArg (Except.map Answer.object)
      ((h.instantiate_fst name).trans (hother.instantiate_fst name).symm)
  | narrowest attributes =>
    exact congrArg (fun catalog => (Catalog.narrowest catalog attributes).map Answer.narrowest)
      (h.catalog_eq.trans hother.catalog_eq.symm)
  | register | entry | size => exact (hrequest trivial).elim

/-- A request for a class without a layout is refused for what is wrong with the class, and leaves
the registry as it is. -/
theorem Faithful.perform_of_error {request : Request} (htarget : request.target catalog = some name)
    {e : ClassError} (he : catalog.layout name = .error e) :
    registry.perform request = (.error e, registry) := by
  obtain ⟨hnone, hsame⟩ := h.require_snd_of_error he
  refine Prod.ext ?_ ?_
  · cases request with
    | require other =>
      cases htarget
      exact congrArg (Except.map Answer.layout) ((h.require_fst name).trans he)
    | register other =>
      cases htarget
      change ((registry.register name).1.map Answer.layout) = _
      rw [h.register_fst hnone, he]
      rfl
    | offset other attr =>
      cases htarget
      change ((registry.offset name attr).1.map Answer.offset) = _
      rw [h.offset_fst, he]
      rfl
    | offsets other attributes =>
      cases htarget
      change ((registry.offsets name attributes).1.map Answer.offsets) = _
      rw [h.offsets_fst, he]
      rfl
    | offsetsOf attributes =>
      change ((registry.offsetsOf attributes).1.map Answer.offsets) = _
      rw [h.offsetsOf_fst, Request.target_offsetsOf_iff.mp htarget]
      change ((catalog.layout name).bind _).map Answer.offsets = _
      rw [he]
      rfl
    | instantiate other =>
      cases htarget
      change ((registry.instantiate name).1.map Answer.object) = _
      rw [h.instantiate_fst, he]
      rfl
    | narrowest | entry | size => cases htarget
  · rw [perform_snd, h.catalog_eq, htarget]
    exact hsame

/-- A class is registered once: with its layout at first, and never again. -/
theorem Faithful.register_cases (name : String) :
    (∃ layout, registry.entry? name = none ∧ catalog.layout name = .ok layout ∧
        (registry.perform (.register name)).1 = .ok (.layout layout)) ∨
      (∃ e, registry.entry? name = none ∧ catalog.layout name = .error e ∧
        registry.perform (.register name) = (.error e, registry)) ∨
      (∃ layout, registry.entry? name = some layout ∧
        registry.perform (.register name) = (.error (.alreadyRegistered name), registry)) := by
  rcases hentry : registry.entry? name with _ | kept
  · rcases hlayout : catalog.layout name with e | layout
    · exact Or.inr (Or.inl ⟨e, rfl, rfl, h.perform_of_error rfl hlayout⟩)
    · refine Or.inl ⟨layout, rfl, rfl, ?_⟩
      change ((registry.register name).1.map Answer.layout) = _
      rw [h.register_fst hentry, hlayout]
      rfl
  · refine Or.inr (Or.inr ⟨kept, rfl, ?_⟩)
    change Prod.map (Except.map Answer.layout) id (registry.register name) = _
    rw [register_of_some hentry]
    rfl

theorem Faithful.registers_iff (name : String) :
    (∃ answer, (registry.perform (.register name)).1 = .ok answer) ↔
      registry.entry? name = none ∧ ∃ layout, catalog.layout name = .ok layout := by
  rcases h.register_cases name with
    ⟨layout, hnone, hlayout, hanswer⟩ | ⟨e, hnone, he, hcall⟩ | ⟨kept, hkept, hcall⟩
  · exact ⟨fun _ => ⟨hnone, layout, hlayout⟩, fun _ => ⟨_, hanswer⟩⟩
  · rw [hcall, he]
    exact ⟨nofun, fun hmade => nomatch hmade.2⟩
  · rw [hcall, hkept]
    exact ⟨nofun, fun hmade => nomatch hmade.1⟩

theorem Faithful.refuses_iff (name : String) :
    registry.perform (.register name) = (.error (.alreadyRegistered name), registry) ↔
      registry.entry? name ≠ none := by
  rcases h.register_cases name with
    ⟨layout, hnone, hlayout, hanswer⟩ | ⟨e, hnone, he, hcall⟩ | ⟨kept, hkept, hcall⟩
  · rw [hnone]
    refine ⟨fun hrefused => ?_, nofun⟩
    rw [hrefused] at hanswer
    cases hanswer
  · rw [hnone, hcall]
    refine ⟨fun hrefused => ?_, nofun⟩
    obtain ⟨other, rfl | rfl⟩ := Catalog.eq_of_layout_eq_error he
    · cases hrefused
    · cases hrefused
  · rw [hkept, hcall]
    exact ⟨fun _ => nofun, fun _ => rfl⟩

theorem Faithful.conflict_iff (name : String) :
    (∃ e : ClassError, e.IsConflict ∧
        registry.perform (.register name) = (.error e, registry)) ↔
      registry.entry? name ≠ none ∨
        ∃ other, catalog.layout name = .error (.cyclicHierarchy other) := by
  rcases h.register_cases name with
    ⟨layout, hnone, hlayout, hanswer⟩ | ⟨e, hnone, he, hcall⟩ | ⟨kept, hkept, hcall⟩
  · rw [hnone, hlayout]
    constructor
    · rintro ⟨e, -, hrefused⟩
      rw [hrefused] at hanswer
      cases hanswer
    · rintro (hkept | ⟨_, hcyclic⟩)
      · exact absurd rfl hkept
      · cases hcyclic
  · rw [hnone, hcall, he]
    obtain ⟨other, rfl | rfl⟩ := Catalog.eq_of_layout_eq_error he
    · constructor
      · rintro ⟨e, hconflict, hrefused⟩
        cases hrefused
        exact hconflict.elim
      · rintro (hkept | ⟨_, hcyclic⟩)
        · exact absurd rfl hkept
        · cases hcyclic
    · exact ⟨fun _ => Or.inr ⟨other, rfl⟩, fun _ => ⟨.cyclicHierarchy other, trivial, rfl⟩⟩
  · rw [hkept, hcall]
    exact ⟨fun _ => Or.inl nofun, fun _ => ⟨.alreadyRegistered name, trivial, rfl⟩⟩

end faithful

/-! ### Runs -/

theorem after_concat (catalog : Catalog) (requests : List Request) (request : Request) :
    after catalog (requests ++ [request]) = ((after catalog requests).perform request).2 := by
  unfold after
  exact List.foldl_concat _ _ _ _

theorem faithful_after (catalog : Catalog) (requests : List Request) :
    (after catalog requests).Faithful catalog := by
  induction requests using List.reverseRecOn with
  | nil => exact faithful_fresh catalog
  | append_singleton requests request ih =>
    rw [after_concat]
    exact ih.perform request

/-- **What is kept after a run**: the layouts that have been asked for, of the classes that have
one. -/
theorem entry?_after (catalog : Catalog) (requests : List Request) (name : String) :
    entry? (after catalog requests) name =
      if ∃ request ∈ requests, request.target catalog = some name
      then (catalog.layout name).toOption else none := by
  induction requests using List.reverseRecOn with
  | nil => rw [if_neg (fun ⟨_, hmem, _⟩ => nomatch hmem)]; rfl
  | append_singleton requests request ih =>
    rw [after_concat, (faithful_after catalog requests).entry?_perform, ih]
    by_cases hlast : request.target catalog = some name
    · have hmem : request ∈ requests ++ [request] :=
        List.mem_append_right _ (List.mem_singleton.mpr rfl)
      rw [if_pos hlast, if_pos ⟨request, hmem, hlast⟩]
    · rw [if_neg hlast]
      refine if_congr ?_ rfl rfl
      constructor
      · rintro ⟨earlier, hmem, htarget⟩
        exact ⟨earlier, List.mem_append_left _ hmem, htarget⟩
      · rintro ⟨earlier, hmem, htarget⟩
        rcases List.mem_append.mp hmem with hmem | hmem
        · exact ⟨earlier, hmem, htarget⟩
        · rw [List.mem_singleton.mp hmem] at htarget
          exact absurd htarget hlast

/-- What is true of the registry after a run, and of the next request to it. -/
structure WriteOnce (catalog : Catalog) (requests : List Request) : Prop where
  /-- A layout that is kept is that of its class, and stays. -/
  kept : ∀ name layout, entry? (after catalog requests) name = some layout →
    catalog.layout name = .ok layout ∧
      ∀ later, entry? (after catalog (requests ++ later)) name = some layout
  /-- A layout is kept if there is one and it was asked for, whatever that was answered. -/
  kept_iff : ∀ name, entry? (after catalog requests) name ≠ none ↔
    (∃ request ∈ requests, request.target catalog = some name) ∧
      ∃ layout, catalog.layout name = .ok layout
  /-- A class without a layout leaves no trace. -/
  failed : ∀ request name e, request.target catalog = some name →
    catalog.layout name = .error e →
      (after catalog requests).perform request = (.error e, after catalog requests)
  registers_iff : ∀ name,
    (∃ answer, ((after catalog requests).perform (.register name)).1 = .ok answer) ↔
      entry? (after catalog requests) name = none ∧ ∃ layout, catalog.layout name = .ok layout
  refuses_iff : ∀ name, (after catalog requests).perform (.register name)
      = (.error (.alreadyRegistered name), after catalog requests) ↔
    entry? (after catalog requests) name ≠ none
  /-- A registration reports a conflict also where the way up from a class comes round. -/
  conflict_iff : ∀ name, (∃ e : ClassError, e.IsConflict ∧
      (after catalog requests).perform (.register name) = (.error e, after catalog requests)) ↔
    entry? (after catalog requests) name ≠ none ∨
      ∃ other, catalog.layout name = .error (.cyclicHierarchy other)
  /-- Nothing is seen of what is kept. -/
  transparent : ∀ request : Request, ¬ request.TellsKept →
    ((after catalog requests).perform request).1 = ((fresh catalog).perform request).1

section runs
variable (catalog : Catalog) (requests : List Request)

theorem kept_after {name : String} {layout : Layout}
    (hentry : entry? (after catalog requests) name = some layout) (later : List Request) :
    entry? (after catalog (requests ++ later)) name = some layout := by
  rw [entry?_after] at hentry ⊢
  split at hentry
  · next hasked =>
    obtain ⟨request, hmem, htarget⟩ := hasked
    rw [if_pos ⟨request, List.mem_append_left _ hmem, htarget⟩, hentry]
  · cases hentry

theorem entry?_after_ne_none_iff (name : String) :
    entry? (after catalog requests) name ≠ none ↔
      (∃ request ∈ requests, request.target catalog = some name) ∧
        ∃ layout, catalog.layout name = .ok layout := by
  rw [entry?_after]
  by_cases hasked : ∃ request ∈ requests, request.target catalog = some name
  · rw [if_pos hasked]
    rcases catalog.layout name with e | layout
    · exact ⟨nofun, fun ⟨_, _, h⟩ => nomatch h⟩
    · exact ⟨fun _ => ⟨hasked, layout, rfl⟩, fun _ => nofun⟩
  · rw [if_neg hasked]
    exact ⟨nofun, fun h => absurd h.1 hasked⟩

/-- **A registry writes every layout once and shows nothing of it.**  After any requests the layouts
kept are those of their classes, of the classes that were asked for and have one; they stay; and no
answer tells of them but those of requests that ask what is kept. -/
theorem writeOnce_after : WriteOnce catalog requests := by
  have hfaithful := faithful_after catalog requests
  exact {
    kept := fun name layout hentry =>
      ⟨hfaithful.layout_eq name layout hentry, kept_after catalog requests hentry⟩
    kept_iff := entry?_after_ne_none_iff catalog requests
    failed := fun request name e htarget he => hfaithful.perform_of_error htarget he
    registers_iff := hfaithful.registers_iff
    refuses_iff := hfaithful.refuses_iff
    conflict_iff := hfaithful.conflict_iff
    transparent := fun request hrequest =>
      hfaithful.answer_eq (faithful_fresh catalog) hrequest }

end runs

/-- Two classes, each of which extends the other. -/
def ring : Catalog := (Catalog.empty.define ⟨"A", some "B", []⟩).define ⟨"B", some "A", []⟩

/-- A class that has not been registered can be refused with a conflict, too. -/
theorem conflict_of_ring :
    ¬ ((∃ e : ClassError, e.IsConflict ∧
        (fresh ring).perform (.register "A") = (.error e, fresh ring)) ↔
      entry? (fresh ring) "A" ≠ none) := by
  have hlayout : ring.layout "A" = .error (.cyclicHierarchy "A") := by cbv
  have hcall : (fresh ring).perform (.register "A") = (.error (.cyclicHierarchy "A"), fresh ring) :=
    (faithful_fresh ring).perform_of_error rfl hlayout
  intro h
  exact h.mp ⟨.cyclicHierarchy "A", trivial, hcall⟩ rfl

end Registry

end HandleHeap
