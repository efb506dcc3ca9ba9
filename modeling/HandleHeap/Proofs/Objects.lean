import Mathlib.Data.List.Basic
import Mathlib.Data.List.Induction
import HandleHeap.Object

/-!
# Runs of writes to objects

The kinds of an object's cells stay those of its layout, although a write compares the new value
with the one that it replaces and not with the layout.  Hence every cell can be written and read on
its own.

* `atOffset?`: what an offset, which can be any integer, stands for in a list;
* `Object.get_eq`, `Object.set_eq_ok_iff`: what the operations do at an offset;
* `Ledger`: an object beside what has been written to it, which `Ledger.after` records from the
  writes that succeed;
* `Ledger.Follows`: every cell holds what was last written to it, which every write preserves;
* `Ledger.Typed`, `Ledger.typed_after`: what is true after every run of writes.
-/

namespace HandleHeap

/-! ### Offsets -/

section atOffset
variable {α : Type} {items : List α} {offset : Int}

/-- What an offset stands for; an offset before the first item or behind the last one stands for
nothing. -/
def atOffset? (items : List α) (offset : Int) : Option α :=
  if 0 ≤ offset then items[offset.toNat]? else none

theorem atOffset?_natCast (items : List α) (place : Nat) :
    atOffset? items (place : Int) = items[place]? := by
  unfold atOffset?
  rw [if_pos (Int.natCast_nonneg place), Int.toNat_natCast]

theorem atOffset?_map {β : Type} (f : α → β) (items : List α) (offset : Int) :
    atOffset? (items.map f) offset = (atOffset? items offset).map f := by
  unfold atOffset?
  split
  · exact List.getElem?_map
  · rfl

theorem atOffset?_eq_some_iff {item : α} : atOffset? items offset = some item ↔
    0 ≤ offset ∧ ∃ inside : offset.toNat < items.length, items[offset.toNat] = item := by
  unfold atOffset?
  split
  · next hoffset =>
    rw [List.getElem?_eq_some_iff]
    exact ⟨fun h => ⟨hoffset, h⟩, fun h => h.2⟩
  · next hoffset => exact ⟨nofun, fun h => absurd h.1 hoffset⟩

theorem atOffset?_eq_none_iff : atOffset? items offset = none ↔
    ¬ (0 ≤ offset ∧ offset.toNat < items.length) := by
  unfold atOffset?
  split
  · next hoffset => rw [List.getElem?_eq_none_iff]; omega
  · next hoffset => exact ⟨fun _ h => hoffset h.1, fun _ => rfl⟩

/-- Replacing an item changes what its own offset stands for and no other. -/
theorem atOffset?_set {old : α} (hold : atOffset? items offset = some old) (item : α)
    (other : Int) : atOffset? (items.set offset.toNat item) other =
      if other = offset then some item else atOffset? items other := by
  obtain ⟨hoffset, hinside, -⟩ := atOffset?_eq_some_iff.mp hold
  unfold atOffset?
  by_cases hother : other = offset
  · rw [if_pos hother, hother, if_pos hoffset, List.getElem?_set_self hinside]
  · rw [if_neg hother]
    split
    · next hnonneg => exact List.getElem?_set_ne (by omega)
    · rfl

end atOffset

/-! ### One operation -/

@[simp] theorem Value.kind_zero (kind : Kind) : (Value.zero kind).kind = kind := by
  cases kind <;> rfl

namespace Object

variable {object next : Object} {offset : Int} {held value : Value}

theorem index_of_none (h : atOffset? object.cells offset = none) :
    object.index offset = .error (.invalidOffset object.className offset) :=
  dif_neg (atOffset?_eq_none_iff.mp h)

theorem get_of_none (h : atOffset? object.cells offset = none) :
    object.get offset = .error (.invalidOffset object.className offset) := by
  unfold get
  rw [index_of_none h]
  rfl

theorem get_of_some (h : atOffset? object.cells offset = some held) :
    object.get offset = .ok held := by
  obtain ⟨hoffset, hinside, rfl⟩ := atOffset?_eq_some_iff.mp h
  unfold get index
  rw [dif_pos ⟨hoffset, hinside⟩]
  rfl

theorem getAs_of_get_error {e : ClassError} (h : object.get offset = .error e) (kind : Kind) :
    object.getAs kind offset = .error e := by
  unfold getAs
  rw [h]
  rfl

theorem getAs_of_get_ok (h : object.get offset = .ok held) (kind : Kind) :
    object.getAs kind offset =
      if held.kind = kind then .ok held else .error (.typeMismatch kind held.kind) := by
  unfold getAs
  rw [h]
  rfl

theorem set_of_none (h : atOffset? object.cells offset = none) (value : Value) :
    object.set offset value = .error (.invalidOffset object.className offset) := by
  unfold set
  rw [index_of_none h]
  rfl

theorem set_of_some (h : atOffset? object.cells offset = some held) (value : Value) :
    object.set offset value =
      if held.kind = value.kind then .ok ⟨object.className, object.cells.set offset.toNat value⟩
      else .error (.typeMismatch held.kind value.kind) := by
  obtain ⟨hoffset, hinside, rfl⟩ := atOffset?_eq_some_iff.mp h
  unfold set index
  rw [dif_pos ⟨hoffset, hinside⟩]
  rfl

/-- **All that a write does**: it replaces one value by another of the same kind. -/
theorem set_eq_ok_iff : object.set offset value = .ok next ↔
    ∃ held, atOffset? object.cells offset = some held ∧ held.kind = value.kind ∧
      next = ⟨object.className, object.cells.set offset.toNat value⟩ := by
  rcases hcell : atOffset? object.cells offset with _ | held
  · rw [set_of_none hcell]
    exact ⟨nofun, fun ⟨_, h, _⟩ => nomatch h⟩
  · rw [set_of_some hcell]
    split
    · next hkind =>
      exact ⟨fun h => ⟨held, rfl, hkind, (Except.ok.inj h).symm⟩, fun ⟨_, _, _, h⟩ => h ▸ rfl⟩
    · next hkind =>
      refine ⟨nofun, ?_⟩
      rintro ⟨_, h, hsame, -⟩
      cases h
      exact absurd hsame hkind

end Object

/-! ### Writes in a row -/

/-- An object beside what has been written to it, the newest in front. -/
structure Ledger where
  /-- The object. -/
  object : Object
  /-- The offsets written to and the values. -/
  written : List (Int × Value) := []

namespace Ledger

/-- A write.  One that is refused changes nothing. -/
def next (ledger : Ledger) (write : Int × Value) : Ledger :=
  match ledger.object.set write.1 write.2 with
  | .ok object => ⟨object, write :: ledger.written⟩
  | .error _ => ledger

/-- An object of a class after a run of writes. -/
def after (className : String) (layout : Layout) (writes : List (Int × Value)) : Ledger :=
  writes.foldl next ⟨Object.fresh className layout, []⟩

/-- What was last written to a cell of an attribute, which starts with the zero of its kind. -/
def last (ledger : Ledger) (offset : Int) (attr : Attribute) : Value :=
  (ledger.written.lookup offset).getD (Value.zero attr.kind)

theorem next_of_ok {ledger : Ledger} {write : Int × Value} {object : Object}
    (h : ledger.object.set write.1 write.2 = .ok object) :
    ledger.next write = ⟨object, write :: ledger.written⟩ := by
  unfold next
  rw [h]

theorem next_of_error {ledger : Ledger} {write : Int × Value} {e : ClassError}
    (h : ledger.object.set write.1 write.2 = .error e) : ledger.next write = ledger := by
  unfold next
  rw [h]

/-- **The invariant of a run**: every cell is of the kind that the layout gives it, and holds what
was last written to it. -/
structure Follows (className : String) (layout : Layout) (ledger : Ledger) : Prop where
  className_eq : ledger.object.className = className
  kinds_eq : ledger.object.cells.map Value.kind = layout.map (·.kind)
  cell_eq : ∀ offset attr, atOffset? layout offset = some attr →
    atOffset? ledger.object.cells offset = some (ledger.last offset attr)

variable {className : String} {layout : Layout}

theorem follows_fresh (className : String) (layout : Layout) :
    Follows className layout ⟨Object.fresh className layout, []⟩ := by
  refine ⟨rfl, ?_, fun offset attr hattr => ?_⟩
  · unfold Object.fresh
    simp
  · unfold Object.fresh
    rw [atOffset?_map, hattr]
    rfl

section follows
variable {ledger : Ledger} (h : ledger.Follows className layout) {offset : Int} {attr : Attribute}
include h

theorem Follows.length_cells : ledger.object.cells.length = layout.length := by
  have hlength := congrArg List.length h.kinds_eq
  rwa [List.length_map, List.length_map] at hlength

theorem Follows.cell_eq_none (hattr : atOffset? layout offset = none) :
    atOffset? ledger.object.cells offset = none := by
  rw [atOffset?_eq_none_iff, h.length_cells]
  exact atOffset?_eq_none_iff.mp hattr

theorem Follows.kind_last (hattr : atOffset? layout offset = some attr) :
    (ledger.last offset attr).kind = attr.kind := by
  have hcell : atOffset? (ledger.object.cells.map Value.kind) offset
      = some (ledger.last offset attr).kind := by
    rw [atOffset?_map, h.cell_eq offset attr hattr]
    rfl
  rw [h.kinds_eq, atOffset?_map, hattr] at hcell
  exact (Option.some.inj hcell).symm

theorem Follows.next (write : Int × Value) : (ledger.next write).Follows className layout := by
  obtain ⟨offset, value⟩ := write
  rcases hset : ledger.object.set offset value with e | object
  · rwa [next_of_error hset]
  obtain ⟨held, hheld, hkind, rfl⟩ := Object.set_eq_ok_iff.mp hset
  rw [next_of_ok hset]
  refine ⟨h.className_eq, ?_, fun other attr hattr => ?_⟩
  · -- the new value has the kind of the one that it replaces
    obtain ⟨-, hinside, hitem⟩ := atOffset?_eq_some_iff.mp hheld
    rw [List.map_set, ← hkind, ← hitem, ← List.getElem_map Value.kind, List.set_getElem_self]
    · exact h.kinds_eq
    · rwa [List.length_map]
  · rw [atOffset?_set hheld]
    unfold last
    rw [List.lookup_cons]
    by_cases hother : other = offset
    · rw [if_pos hother, beq_iff_eq.mpr hother]
      rfl
    · rw [if_neg hother, beq_eq_false_iff_ne.mpr hother]
      exact h.cell_eq other attr hattr

end follows

theorem after_concat (className : String) (layout : Layout) (writes : List (Int × Value))
    (write : Int × Value) : after className layout (writes ++ [write])
      = (after className layout writes).next write := by
  unfold after
  exact List.foldl_concat _ _ _ _

theorem follows_after (className : String) (layout : Layout) (writes : List (Int × Value)) :
    (after className layout writes).Follows className layout := by
  induction writes using List.reverseRecOn with
  | nil => exact follows_fresh className layout
  | append_singleton writes write ih =>
    rw [after_concat]
    exact ih.next write

/-! ### What is true after a run -/

/-- Whether the layout has an attribute at the offset of a write, of the kind of its value. -/
def fits (layout : Layout) (write : Int × Value) : Bool :=
  (atOffset? layout write.1).any (·.kind = write.2.kind)

section follows
variable {ledger : Ledger} (h : ledger.Follows className layout) {offset : Int} {attr : Attribute}
include h

theorem Follows.get_of_none (hattr : atOffset? layout offset = none) :
    ledger.object.get offset = .error (.invalidOffset className offset) := by
  rw [Object.get_of_none (h.cell_eq_none hattr), h.className_eq]

theorem Follows.get_of_some (hattr : atOffset? layout offset = some attr) :
    ledger.object.get offset = .ok (ledger.last offset attr) :=
  Object.get_of_some (h.cell_eq offset attr hattr)

theorem Follows.getAs_of_some (hattr : atOffset? layout offset = some attr) (kind : Kind) :
    ledger.object.getAs kind offset = if attr.kind = kind then .ok (ledger.last offset attr)
      else .error (.typeMismatch kind attr.kind) := by
  rw [Object.getAs_of_get_ok (h.get_of_some hattr), h.kind_last hattr]

theorem Follows.set_of_none (hattr : atOffset? layout offset = none) (value : Value) :
    ledger.object.set offset value = .error (.invalidOffset className offset) := by
  rw [Object.set_of_none (h.cell_eq_none hattr), h.className_eq]

theorem Follows.set_of_kind_ne (hattr : atOffset? layout offset = some attr) {value : Value}
    (hkind : attr.kind ≠ value.kind) :
    ledger.object.set offset value = .error (.typeMismatch attr.kind value.kind) := by
  rw [Object.set_of_some (h.cell_eq offset attr hattr), h.kind_last hattr, if_neg hkind]

/-- A write of the right kind changes what its own offset reads and nothing else. -/
theorem Follows.set_of_kind_eq (hattr : atOffset? layout offset = some attr) {value : Value}
    (hkind : attr.kind = value.kind) : ∃ object, ledger.object.set offset value = .ok object ∧
      object.className = className ∧ object.cells.map Value.kind = layout.map (·.kind) ∧
      ∀ other, object.get other =
        if other = offset then .ok value else ledger.object.get other := by
  have hcell := h.cell_eq offset attr hattr
  obtain ⟨object, hset⟩ : ∃ object, ledger.object.set offset value = .ok object :=
    ⟨_, Object.set_eq_ok_iff.mpr ⟨_, hcell, (h.kind_last hattr).trans hkind, rfl⟩⟩
  have hnext : Follows className layout ⟨object, (offset, value) :: ledger.written⟩ := by
    rw [← next_of_ok hset]
    exact h.next (offset, value)
  refine ⟨object, hset, hnext.className_eq, hnext.kinds_eq, fun other => ?_⟩
  rcases hother : atOffset? layout other with _ | reached
  · have hne : other ≠ offset := fun heq => by rw [heq, hattr] at hother; cases hother
    rw [hnext.get_of_none hother, h.get_of_none hother, if_neg hne]
  · rw [hnext.get_of_some hother, h.get_of_some hother]
    unfold last
    rw [List.lookup_cons]
    by_cases heq : other = offset
    · rw [if_pos heq, beq_iff_eq.mpr heq]
      rfl
    · rw [if_neg heq, beq_eq_false_iff_ne.mpr heq]

/-- A write is taken exactly where it fits the layout. -/
theorem Follows.set_iff (write : Int × Value) :
    (∃ object, ledger.object.set write.1 write.2 = .ok object) ↔ fits layout write = true := by
  unfold fits
  rcases hattr : atOffset? layout write.1 with _ | attr
  · rw [h.set_of_none hattr]
    exact ⟨nofun, nofun⟩
  rw [Option.any_some, decide_eq_true_iff]
  by_cases hkind : attr.kind = write.2.kind
  · obtain ⟨object, hset, -⟩ := h.set_of_kind_eq hattr hkind
    exact ⟨fun _ => hkind, fun _ => ⟨object, hset⟩⟩
  · rw [h.set_of_kind_ne hattr hkind]
    exact ⟨nofun, fun heq => absurd heq hkind⟩

end follows

/-- What has been written are the writes that fit the layout. -/
theorem written_after (className : String) (layout : Layout) (writes : List (Int × Value)) :
    (after className layout writes).written = (writes.filter (fits layout)).reverse := by
  induction writes using List.reverseRecOn with
  | nil => rfl
  | append_singleton writes write ih =>
    have hset := (follows_after className layout writes).set_iff write
    rw [after_concat, List.filter_append, List.reverse_append]
    rcases hwrite : (after className layout writes).object.set write.1 write.2 with e | object
    · have hfits : fits layout write = false := by
        rw [← Bool.not_eq_true, ← hset, hwrite]
        exact nofun
      rw [next_of_error hwrite, ih, List.filter_singleton, hfits]
      rfl
    · rw [next_of_ok hwrite, ih, List.filter_singleton, hset.mp ⟨object, hwrite⟩]
      rfl

/-- What is true of an object of a layout after a run of writes, and of the next operation on
it. -/
structure Typed (className : String) (layout : Layout) (writes : List (Int × Value))
    (ledger : Ledger) : Prop where
  size_eq : ledger.object.size = layout.length
  kinds_eq : ledger.object.cells.map Value.kind = layout.map (·.kind)
  written_eq : ledger.written = (writes.filter (fits layout)).reverse
  /-- Outside the layout there is nothing, whatever the kind. -/
  outside : ∀ offset, atOffset? layout offset = none →
    ledger.object.get offset = .error (.invalidOffset className offset) ∧
      (∀ kind, ledger.object.getAs kind offset = .error (.invalidOffset className offset)) ∧
      ∀ value, ledger.object.set offset value = .error (.invalidOffset className offset)
  /-- A read gives what was last written, or the zero of the kind. -/
  get_eq : ∀ offset attr, atOffset? layout offset = some attr →
    ledger.object.get offset = .ok (ledger.last offset attr) ∧
      (ledger.last offset attr).kind = attr.kind
  getAs_eq : ∀ offset attr kind, atOffset? layout offset = some attr →
    ledger.object.getAs kind offset = if attr.kind = kind then .ok (ledger.last offset attr)
      else .error (.typeMismatch kind attr.kind)
  set_of_kind_ne : ∀ offset attr (value : Value), atOffset? layout offset = some attr →
    attr.kind ≠ value.kind →
      ledger.object.set offset value = .error (.typeMismatch attr.kind value.kind)
  /-- A write of the right kind changes one cell. -/
  set_of_kind_eq : ∀ offset attr (value : Value), atOffset? layout offset = some attr →
    attr.kind = value.kind → ∃ object, ledger.object.set offset value = .ok object ∧
      object.className = className ∧ object.cells.map Value.kind = layout.map (·.kind) ∧
      ∀ other, object.get other = if other = offset then .ok value else ledger.object.get other
  refused : ∀ offset value e, ledger.object.set offset value = .error e →
    ledger.next (offset, value) = ledger

/-- **The attributes of an object are typed cells that do not disturb one another**, whatever has
been tried to write to them. -/
theorem typed_after (className : String) (layout : Layout) (writes : List (Int × Value)) :
    (after className layout writes).Typed className layout writes := by
  have hfollows := follows_after className layout writes
  exact {
    size_eq := hfollows.length_cells
    kinds_eq := hfollows.kinds_eq
    written_eq := written_after className layout writes
    outside := fun offset hattr =>
      ⟨hfollows.get_of_none hattr, Object.getAs_of_get_error (hfollows.get_of_none hattr),
        hfollows.set_of_none hattr⟩
    get_eq := fun offset attr hattr => ⟨hfollows.get_of_some hattr, hfollows.kind_last hattr⟩
    getAs_eq := fun offset attr kind hattr => hfollows.getAs_of_some hattr kind
    set_of_kind_ne := fun offset attr value hattr hkind => hfollows.set_of_kind_ne hattr hkind
    set_of_kind_eq := fun offset attr value hattr hkind => hfollows.set_of_kind_eq hattr hkind
    refused := fun offset value e hset => next_of_error hset }

end Ledger

end HandleHeap
