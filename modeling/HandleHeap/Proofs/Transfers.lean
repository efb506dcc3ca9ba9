import HandleHeap.Scalar.Sequence
import HandleHeap.Proofs.Views

/-!
# Transfers of values

Values are written to a run of bytes, and read from it, one after the other for as long as there are
values and room for one more.  A run of bytes is thereby taken as groups of the width of a value,
with bytes left over that are too few for a value and stay out of it.

* `Scalar.fitting`: how many values are transferred;
* `Scalar.encodeInto_eq`, `Scalar.decodeInto_eq`: what a transfer leaves, in closed form;
* `Scalar.take_decodeInto_encodeInto`: what was written is read;
* `Scalar.encode_decode`: every group is the encoding of what is read from it, up to the pattern
  of `true`;
* `Scalar.reverseGroups`: the bytes with every group turned round, which is what the opposite byte
  order makes of them;
* `Scalar.Transfers`, `Scalar.transfers`: both directions, and what they undo of each other.
-/

namespace HandleHeap

theorem ByteOrder.arrange_reverse (order : ByteOrder) (bytes : List UInt8) :
    order.arrange bytes.reverse = (order.arrange bytes).reverse := by
  cases order <;> rfl

namespace Scalar

variable {scalar : Scalar} {order : ByteOrder} {bytes : List UInt8}

theorem width_pos (scalar : Scalar) : 0 < scalar.width := by
  cases scalar <;> decide

/-! ### Counting -/

/-- Of so many values, those that fit into a run of bytes. -/
def fitting (scalar : Scalar) (count : Nat) (bytes : List UInt8) : Nat :=
  min count (bytes.length / scalar.width)

theorem fitting_zero : scalar.fitting 0 bytes = 0 := Nat.zero_min _

theorem fitting_of_short (h : bytes.length < scalar.width) (count : Nat) :
    scalar.fitting count bytes = 0 := by
  rw [fitting, Nat.div_eq_of_lt h, Nat.min_zero]

theorem fitting_succ (h : scalar.width ≤ bytes.length) (count : Nat) :
    scalar.fitting (count + 1) bytes = scalar.fitting count (bytes.drop scalar.width) + 1 := by
  rw [fitting, fitting, Nat.div_eq_sub_div scalar.width_pos h, List.length_drop, Nat.succ_min_succ]

theorem length_take_lt_iff : (bytes.take scalar.width).length < scalar.width ↔
    bytes.length < scalar.width := by
  rw [List.length_take]
  omega

/-- The groups behind the first one are those of the bytes behind it. -/
theorem drop_width_drop (width i : Nat) (bytes : List UInt8) :
    (bytes.drop width).drop (i * width) = bytes.drop ((i + 1) * width) := by
  rw [List.drop_drop, Nat.succ_mul, Nat.add_comm]

/-! ### One more value -/

theorem encodeInto_of_short (h : bytes.length < scalar.width) (values : List scalar.Value) :
    scalar.encodeInto order values bytes = bytes := by
  cases values with
  | nil => rfl
  | cons value rest => exact if_pos (length_take_lt_iff.mpr h)

theorem encodeInto_cons (h : scalar.width ≤ bytes.length) (value : scalar.Value)
    (rest : List scalar.Value) : scalar.encodeInto order (value :: rest) bytes
      = scalar.encode order value ++ scalar.encodeInto order rest (bytes.drop scalar.width) :=
  if_neg fun hshort => Nat.not_lt.mpr h (length_take_lt_iff.mp hshort)

theorem decodeInto_of_short (h : bytes.length < scalar.width) (into : List scalar.Value) :
    scalar.decodeInto order bytes into = into := by
  cases into with
  | nil => rfl
  | cons value rest => exact if_pos (length_take_lt_iff.mpr h)

theorem decodeInto_cons (h : scalar.width ≤ bytes.length) (value : scalar.Value)
    (rest : List scalar.Value) : scalar.decodeInto order bytes (value :: rest)
      = scalar.decode order bytes :: scalar.decodeInto order (bytes.drop scalar.width) rest :=
  if_neg fun hshort => Nat.not_lt.mpr h (length_take_lt_iff.mp hshort)

/-! ### Closed forms -/

/-- **Writing** replaces a whole number of groups by the values at the front. -/
theorem encodeInto_eq (scalar : Scalar) (order : ByteOrder) (values : List scalar.Value)
    (bytes : List UInt8) : scalar.encodeInto order values bytes
      = (values.take (scalar.fitting values.length bytes)).flatMap (scalar.encode order)
        ++ bytes.drop (scalar.fitting values.length bytes * scalar.width) := by
  induction values generalizing bytes with
  | nil => rw [List.length_nil, fitting_zero, Nat.zero_mul]; rfl
  | cons value rest ih =>
    rcases Nat.lt_or_ge bytes.length scalar.width with hshort | hfits
    · rw [encodeInto_of_short hshort, fitting_of_short hshort, Nat.zero_mul]
      rfl
    · have hcount := fitting_succ hfits rest.length
      rw [encodeInto_cons hfits, ih, drop_width_drop, List.length_cons, hcount,
        List.take_succ_cons, List.flatMap_cons, List.append_assoc]

theorem decode_take (scalar : Scalar) (order : ByteOrder) (bytes : List UInt8) :
    scalar.decode order (bytes.take scalar.width) = scalar.decode order bytes := by
  rw [decode, List.take_take, Nat.min_self, decode]

/-- **Reading** replaces the values at the front by those of as many groups. -/
theorem decodeInto_eq (scalar : Scalar) (order : ByteOrder) (bytes : List UInt8)
    (into : List scalar.Value) : scalar.decodeInto order bytes into
      = ((List.range (scalar.fitting into.length bytes)).map fun i =>
          scalar.decode order ((bytes.drop (i * scalar.width)).take scalar.width))
        ++ into.drop (scalar.fitting into.length bytes) := by
  induction into generalizing bytes with
  | nil => rw [List.length_nil, fitting_zero]; rfl
  | cons value rest ih =>
    rcases Nat.lt_or_ge bytes.length scalar.width with hshort | hfits
    · rw [decodeInto_of_short hshort, fitting_of_short hshort]
      rfl
    · have hcount := fitting_succ hfits rest.length
      have hfirst : scalar.decode order ((bytes.drop (0 * scalar.width)).take scalar.width)
          = scalar.decode order bytes := by
        rw [Nat.zero_mul, List.drop_zero, decode_take]
      rw [decodeInto_cons hfits, ih, List.length_cons, hcount, List.range_succ_eq_map,
        List.map_cons, hfirst, List.map_map, List.cons_append, List.drop_succ_cons]
      simp only [drop_width_drop, Function.comp_def, Nat.succ_eq_add_one]

/-! ### One direction after the other -/

theorem decode_append (scalar : Scalar) (order : ByteOrder) (value : scalar.Value)
    (rest : List UInt8) : scalar.decode order (scalar.encode order value ++ rest) = value := by
  rw [← decode_take, List.take_left' (length_encode scalar order value), decode_encode]

/-- **What was written is read**, as many values as are asked for. -/
theorem take_decodeInto_encodeInto (scalar : Scalar) (order : ByteOrder)
    (values into : List scalar.Value) (bytes : List UInt8) :
    (scalar.decodeInto order (scalar.encodeInto order values bytes) into).take
        (scalar.fitting values.length bytes)
      = (values.take into.length).take (scalar.fitting values.length bytes) := by
  induction values generalizing bytes into with
  | nil => rw [List.length_nil, fitting_zero]; rfl
  | cons value rest ih =>
    rcases Nat.lt_or_ge bytes.length scalar.width with hshort | hfits
    · rw [fitting_of_short hshort]
      rfl
    rcases into with _ | ⟨old, others⟩
    · rfl
    · have hwidth : scalar.width ≤ (scalar.encodeInto order (value :: rest) bytes).length := by
        rw [length_encodeInto]
        exact hfits
      have hread : scalar.decodeInto order (scalar.encodeInto order (value :: rest) bytes)
          (old :: others) = value :: scalar.decodeInto order
            (scalar.encodeInto order rest (bytes.drop scalar.width)) others := by
        rw [decodeInto_cons hwidth, encodeInto_cons hfits, decode_append,
          List.drop_left' (length_encode scalar order value)]
      rw [hread, List.length_cons, fitting_succ hfits, List.take_succ_cons, ih, List.length_cons,
        List.take_succ_cons, List.take_succ_cons]

/-- The byte that stands for the value read from a byte: every pattern of `true` is the same. -/
def normal : Scalar → UInt8 → UInt8
  | bool, b => if b = 0 then 0 else 1
  | _, b => b

theorem normal_of_ne_bool (h : scalar ≠ bool) : scalar.normal = id := by
  cases scalar
  case bool => exact absurd rfl h
  all_goals rfl

theorem encode_decode_bool (order : ByteOrder) (b : UInt8) :
    bool.encode order (bool.decode order [b]) = [bool.normal b] := by
  have hdecode : bool.decode order [b] = (b.toNat != 0) := by
    cases order <;> exact congrArg (fun n => n != 0) (Nat.add_zero _)
  rw [hdecode, normal]
  by_cases hb : b = 0
  · subst hb
    cases order <;> rfl
  · have htrue : (b.toNat != 0) = true := by
      rw [bne_iff_ne]
      exact fun hzero => hb (UInt8.toNat_inj.mp hzero)
    rw [htrue, if_neg hb]
    cases order <;> rfl

/-- **A group is the encoding of the value read from it**, but for the pattern of `true`. -/
theorem encode_decode (scalar : Scalar) (order : ByteOrder) {bytes : List UInt8}
    (h : scalar.width ≤ bytes.length) : scalar.encode order (scalar.decode order bytes)
      = (bytes.take scalar.width).map scalar.normal := by
  by_cases hbool : scalar = bool
  · subst hbool
    obtain ⟨b, rest, rfl⟩ := List.exists_cons_of_length_pos h
    exact encode_decode_bool order b
  · have hlength : (order.arrange (bytes.take scalar.width)).length = scalar.width := by
      rw [ByteOrder.length_arrange, List.length_take, Nat.min_eq_left h]
    rw [encode, decode, digits_bits_ofBits hbool hlength, ByteOrder.arrange_arrange,
      normal_of_ne_bool hbool, List.map_id]

/-- **What was read is written** over the bytes of any run that has room for it. -/
theorem take_encodeInto_decodeInto (scalar : Scalar) (order : ByteOrder) (bytes : List UInt8)
    (into : List scalar.Value) (target : List UInt8)
    (h : scalar.fitting into.length bytes * scalar.width ≤ target.length) :
    (scalar.encodeInto order (scalar.decodeInto order bytes into) target).take
        (scalar.fitting into.length bytes * scalar.width)
      = (bytes.take (scalar.fitting into.length bytes * scalar.width)).map scalar.normal := by
  induction into generalizing bytes target with
  | nil => rw [List.length_nil, fitting_zero, Nat.zero_mul]; rfl
  | cons value rest ih =>
    rcases Nat.lt_or_ge bytes.length scalar.width with hshort | hfits
    · rw [fitting_of_short hshort, Nat.zero_mul]
      rfl
    · rw [List.length_cons, fitting_succ hfits, Nat.succ_mul] at h ⊢
      have hroom : scalar.width ≤ target.length := by omega
      have hrest : scalar.fitting rest.length (bytes.drop scalar.width) * scalar.width
          ≤ (target.drop scalar.width).length := by
        rw [List.length_drop]
        omega
      have hwritten : scalar.encodeInto order (scalar.decodeInto order bytes (value :: rest)) target
          = (bytes.take scalar.width).map scalar.normal ++ scalar.encodeInto order
              (scalar.decodeInto order (bytes.drop scalar.width) rest)
              (target.drop scalar.width) := by
        rw [decodeInto_cons hfits, encodeInto_cons hroom, encode_decode scalar order hfits]
      have hlength : ((bytes.take scalar.width).map scalar.normal).length = scalar.width := by
        rw [List.length_map, List.length_take, Nat.min_eq_left hfits]
      rw [hwritten, Nat.add_comm, List.take_add, List.take_add, List.take_left' hlength,
        List.drop_left' hlength, ih _ _ hrest, List.map_append]

/-! ### The opposite order -/

/-- The bytes with every group turned round; those left over at the end stay. -/
def reverseGroups (width : Nat) (bytes : List UInt8) : List UInt8 :=
  ((List.range (bytes.length / width)).flatMap fun i =>
      ((bytes.drop (i * width)).take width).reverse)
    ++ bytes.drop (bytes.length / width * width)

theorem reverseGroups_of_short {width : Nat} (h : bytes.length < width) :
    reverseGroups width bytes = bytes := by
  rw [reverseGroups, Nat.div_eq_of_lt h, Nat.zero_mul]
  rfl

theorem reverseGroups_append {width : Nat} (hpos : 0 < width) {group : List UInt8}
    (h : group.length = width) (rest : List UInt8) :
    reverseGroups width (group ++ rest) = group.reverse ++ reverseGroups width rest := by
  have hcount : (group ++ rest).length / width = rest.length / width + 1 := by
    rw [List.length_append, h, Nat.add_div_left _ hpos]
  have hdrop : ∀ i, (group ++ rest).drop ((i + 1) * width) = rest.drop (i * width) := fun i => by
    rw [← drop_width_drop, List.drop_left' h]
  rw [reverseGroups, reverseGroups, hcount, hdrop, List.range_succ_eq_map, List.flatMap_cons,
    List.flatMap_map, Nat.zero_mul, List.drop_zero, List.take_left' h, List.append_assoc]
  simp only [Nat.succ_eq_add_one, hdrop]

theorem encode_opposite (scalar : Scalar) (order : ByteOrder) (value : scalar.Value) :
    scalar.encode order.reversed value = (scalar.encode order value).reverse :=
  order.arrange_reversed _

/-- Encodings are turned round one by one. -/
theorem reverseGroups_flatMap_encode (scalar : Scalar) (order : ByteOrder)
    (values : List scalar.Value) : reverseGroups scalar.width (values.flatMap (scalar.encode order))
      = values.flatMap (scalar.encode order.reversed) := by
  induction values with
  | nil => exact reverseGroups_of_short scalar.width_pos
  | cons value rest ih =>
    rw [List.flatMap_cons, reverseGroups_append scalar.width_pos (length_encode scalar order value),
      ih, List.flatMap_cons, encode_opposite]

/-- **The opposite order writes every group turned round**, and leaves the other bytes too. -/
theorem encodeInto_opposite (scalar : Scalar) (order : ByteOrder) (values : List scalar.Value)
    (bytes : List UInt8) : scalar.encodeInto order.reversed values bytes
      = reverseGroups scalar.width ((scalar.encodeInto order values bytes).take
          (scalar.fitting values.length bytes * scalar.width))
        ++ bytes.drop (scalar.fitting values.length bytes * scalar.width) := by
  have hle : scalar.fitting values.length bytes ≤ values.length := Nat.min_le_left _ _
  have hwritten : ((values.take (scalar.fitting values.length bytes)).flatMap
      (scalar.encode order)).length = scalar.fitting values.length bytes * scalar.width := by
    rw [length_flatMap_encode, List.length_take, Nat.min_eq_left hle]
  rw [encodeInto_eq scalar order.reversed, encodeInto_eq scalar order, List.take_left' hwritten,
    reverseGroups_flatMap_encode]

/-- **The opposite order reads every group turned round.** -/
theorem decodeInto_opposite (scalar : Scalar) (order : ByteOrder) (bytes : List UInt8)
    (into : List scalar.Value) : scalar.decodeInto order.reversed bytes into
      = scalar.decodeInto order (reverseGroups scalar.width bytes) into := by
  induction into generalizing bytes with
  | nil => rfl
  | cons value rest ih =>
    rcases Nat.lt_or_ge bytes.length scalar.width with hshort | hfits
    · rw [reverseGroups_of_short hshort, decodeInto_of_short hshort, decodeInto_of_short hshort]
    · have hlength : (bytes.take scalar.width).length = scalar.width := by
        rw [List.length_take, Nat.min_eq_left hfits]
      have hreverse : (bytes.take scalar.width).reverse.length = scalar.width := by
        rw [List.length_reverse, hlength]
      have hgroups : reverseGroups scalar.width bytes = (bytes.take scalar.width).reverse
          ++ reverseGroups scalar.width (bytes.drop scalar.width) := by
        rw [← reverseGroups_append scalar.width_pos hlength, List.take_append_drop]
      have hroom : scalar.width ≤ ((bytes.take scalar.width).reverse
          ++ reverseGroups scalar.width (bytes.drop scalar.width)).length := by
        rw [List.length_append, hreverse]
        exact Nat.le_add_right _ _
      rw [hgroups, decodeInto_cons hfits, decodeInto_cons hroom, List.drop_left' hreverse, ih]
      congr 1
      rw [decode, decode, List.take_left' hreverse, ByteOrder.arrange_reversed,
        ByteOrder.arrange_reverse]

/-! ### Both directions -/

/-- What writing values to a run of bytes leaves, what reading such a run leaves, and what the one
makes of the other. -/
structure Transfers (scalar : Scalar) (order : ByteOrder) (values into : List scalar.Value)
    (bytes : List UInt8) : Prop where
  /-- The values at the front are written, and no byte behind them changes. -/
  write_eq : scalar.encodeInto order values bytes
    = (values.take (scalar.fitting values.length bytes)).flatMap (scalar.encode order)
      ++ bytes.drop (scalar.fitting values.length bytes * scalar.width)
  /-- The groups at the front are read, and no value behind theirs changes. -/
  read_eq : scalar.decodeInto order bytes into
    = ((List.range (scalar.fitting into.length bytes)).map fun i =>
        scalar.decode order ((bytes.drop (i * scalar.width)).take scalar.width))
      ++ into.drop (scalar.fitting into.length bytes)
  /-- What was written is read, as many values as are asked for. -/
  read_write : (scalar.decodeInto order (scalar.encodeInto order values bytes) into).take
      (scalar.fitting values.length bytes)
    = (values.take into.length).take (scalar.fitting values.length bytes)
  /-- What was read gives the bytes back wherever it is written, -/
  write_read : scalar ≠ bool → ∀ target : List UInt8,
    scalar.fitting into.length bytes * scalar.width ≤ target.length →
      (scalar.encodeInto order (scalar.decodeInto order bytes into) target).take
          (scalar.fitting into.length bytes * scalar.width)
        = bytes.take (scalar.fitting into.length bytes * scalar.width)
  /-- but for the many patterns of `true`. -/
  write_read_bool : scalar = bool → ∀ target : List UInt8,
    scalar.fitting into.length bytes * scalar.width ≤ target.length →
      (scalar.encodeInto order (scalar.decodeInto order bytes into) target).take
          (scalar.fitting into.length bytes * scalar.width)
        = (bytes.take (scalar.fitting into.length bytes * scalar.width)).map fun b =>
            if b = 0 then 0 else 1
  /-- The opposite order turns every group round that is written, -/
  write_opposite : scalar.encodeInto order.reversed values bytes
    = reverseGroups scalar.width ((scalar.encodeInto order values bytes).take
        (scalar.fitting values.length bytes * scalar.width))
      ++ bytes.drop (scalar.fitting values.length bytes * scalar.width)
  /-- and every group that is read. -/
  read_opposite : scalar.decodeInto order.reversed bytes into
    = scalar.decodeInto order (reverseGroups scalar.width bytes) into

/-- **Writing and reading undo each other**, for values of every type in both orders, whatever the
numbers of values and bytes. -/
theorem transfers (scalar : Scalar) (order : ByteOrder) (values into : List scalar.Value)
    (bytes : List UInt8) : scalar.Transfers order values into bytes where
  write_eq := encodeInto_eq scalar order values bytes
  read_eq := decodeInto_eq scalar order bytes into
  read_write := take_decodeInto_encodeInto scalar order values into bytes
  write_read hbool target hroom := by
    have hwritten := take_encodeInto_decodeInto scalar order bytes into target hroom
    rwa [normal_of_ne_bool hbool, List.map_id] at hwritten
  write_read_bool hbool target hroom := by
    subst hbool
    exact take_encodeInto_decodeInto bool order bytes into target hroom
  write_opposite := encodeInto_opposite scalar order values bytes
  read_opposite := decodeInto_opposite scalar order bytes into

example : Scalar.short.encodeInto .big [0x0102, 0x0304, 0x0506] [9, 9, 9, 9, 9] = [1, 2, 3, 4, 9] ∧
    Scalar.short.decodeInto .little [1, 2, 3, 4, 9] [7, 7, 7] = [0x0201, 0x0403, 7] := by decide

end Scalar

end HandleHeap
