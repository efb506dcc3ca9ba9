import Mathlib
import HandleHeap.Text.Digits

/-!
# Decimal numerals

A number written in decimal digits, and read back.

* `Text.isDigit_iff`: the decimal digits are ten characters;
* `Text.natOfDigits?_toDigits`: the digits of a number are read as that number;
* `Text.signed?_of_natOfDigits?`, `Text.unsigned?_of_natOfDigits?`: where digits are read as a word;
* `Text.exists_toDigits_eq_cons`: only zero is written with a leading zero;
* `Text.isDigit_of_natOfDigits?`: what is read as a number consists of digits.
-/

namespace HandleHeap.Text

/-! ### Digits -/

theorem digit?_digitChar {d : Nat} (h : d < 10) : digit? 10 (Nat.digitChar d) = some d := by
  interval_cases d <;> rfl

/-- **The decimal digits** are the ten characters that numbers are written with. -/
theorem isDigit_iff {c : Char} : isDigit 10 c = true ↔ ∃ d < 10, c = Nat.digitChar d := by
  constructor
  · intro h
    have hrange : 48 ≤ c.toNat ∧ c.toNat ≤ 57 := by
      unfold isDigit digit? at h
      dsimp only at h
      by_cases hdigit : '0' ≤ c ∧ c ≤ '9'
      · exact ⟨hdigit.1, hdigit.2⟩
      · -- letters count ten or more, and everything else as much as the base
        rw [if_neg hdigit] at h
        split_ifs at h with h₁ h₂ h₃ h₄ h₅ <;> first | omega | simp at h
    refine ⟨c.toNat - 48, by omega, ?_⟩
    obtain ⟨hleast, hgreatest⟩ := hrange
    rw [← Char.ofNat_toNat c]
    generalize c.toNat = code at *
    interval_cases code <;> rfl
  · rintro ⟨d, hd, rfl⟩
    unfold isDigit
    rw [digit?_digitChar hd]
    rfl

/-- What holds of the ten characters holds of every decimal digit. -/
theorem forall_isDigit {P : Char → Prop} (h : ∀ d < 10, P (Nat.digitChar d)) {c : Char}
    (hc : isDigit 10 c = true) : P c := by
  obtain ⟨d, hd, rfl⟩ := isDigit_iff.mp hc
  exact h d hd

/-- No digit is a character that is not one. -/
theorem ne_of_isDigit {base : Nat} {c mark : Char} (hc : isDigit base c = true)
    (hmark : isDigit base mark = false) : c ≠ mark :=
  ne_of_apply_ne (isDigit base) (by rw [hc, hmark]; decide)

theorem isDigit_of_mem_toDigits {n : Nat} {c : Char} (hc : c ∈ Nat.toDigits 10 n) :
    isDigit 10 c = true := by
  induction n using Nat.strong_induction_on with
  | _ n ih =>
    rcases Nat.lt_or_ge n 10 with hsmall | hlarge
    · rw [Nat.toDigits_of_lt_base hsmall, List.mem_singleton] at hc
      exact isDigit_iff.mpr ⟨n, hsmall, hc⟩
    · rw [Nat.toDigits_of_base_le (by decide) hlarge, List.mem_append, List.mem_singleton] at hc
      rcases hc with hc | hc
      · exact ih (n / 10) (by omega) hc
      · exact isDigit_iff.mpr ⟨n % 10, by omega, hc⟩

/-- **Only zero is written with a leading zero.** -/
theorem exists_toDigits_eq_cons {n : Nat} (hpos : 0 < n) :
    ∃ c rest, Nat.toDigits 10 n = c :: rest ∧ c ≠ '0' := by
  induction n using Nat.strong_induction_on with
  | _ n ih =>
    rcases Nat.lt_or_ge n 10 with hsmall | hlarge
    · refine ⟨Nat.digitChar n, [], Nat.toDigits_of_lt_base hsmall, ?_⟩
      interval_cases n <;> decide
    · obtain ⟨c, rest, heq, hc⟩ := ih (n / 10) (by omega) (by omega)
      refine ⟨c, rest ++ [Nat.digitChar (n % 10)], ?_, hc⟩
      rw [Nat.toDigits_of_base_le (by decide) hlarge, heq, List.cons_append]

/-! ### Reading -/

theorem natOfDigits?_append_singleton {digits : List Char} {n d : Nat} {c : Char}
    (hread : natOfDigits? 10 digits = some n) (hdigit : digit? 10 c = some d) :
    natOfDigits? 10 (digits ++ [c]) = some (10 * n + d) := by
  unfold natOfDigits? at hread ⊢
  cases digits with
  | nil => simp at hread
  | cons first rest =>
    simp only [List.isEmpty_cons, Bool.false_eq_true, if_false, List.cons_append] at hread ⊢
    rw [← List.cons_append, List.foldlM_append, hread]
    simp [hdigit]

/-- **The digits of a number are read as the number.** -/
theorem natOfDigits?_toDigits (n : Nat) : natOfDigits? 10 (Nat.toDigits 10 n) = some n := by
  induction n using Nat.strong_induction_on with
  | _ n ih =>
    rcases Nat.lt_or_ge n 10 with hsmall | hlarge
    · rw [Nat.toDigits_of_lt_base hsmall]
      simp [natOfDigits?, digit?_digitChar hsmall]
    · have hlast : n % 10 < 10 := Nat.mod_lt n (by decide)
      rw [Nat.toDigits_of_base_le (by decide) hlarge,
        natOfDigits?_append_singleton (ih (n / 10) (by omega)) (digit?_digitChar hlast),
        Nat.div_add_mod]

theorem isDigit_of_foldlM {base : Nat} {digits : List Char} {start n : Nat}
    (hread : digits.foldlM (fun n c => (digit? base c).map (base * n + ·)) start = some n) :
    ∀ c ∈ digits, isDigit base c = true := by
  induction digits generalizing start with
  | nil => exact fun c hc => absurd hc List.not_mem_nil
  | cons first rest ih =>
    rw [List.foldlM_cons, Option.bind_eq_bind, Option.bind_eq_some_iff] at hread
    obtain ⟨next, hfirst, hrest⟩ := hread
    obtain ⟨d, hd, -⟩ := Option.map_eq_some_iff.mp hfirst
    intro c hc
    rcases List.mem_cons.mp hc with rfl | hc
    · unfold isDigit
      rw [hd]
      rfl
    · exact ih hrest c hc

/-- What is read as a number consists of digits, at least one. -/
theorem isDigit_of_natOfDigits? {base : Nat} {digits : List Char} {n : Nat}
    (hread : natOfDigits? base digits = some n) :
    digits ≠ [] ∧ ∀ c ∈ digits, isDigit base c = true := by
  unfold natOfDigits? at hread
  split at hread
  · exact absurd hread (by simp)
  · next hempty =>
    exact ⟨fun hnil => hempty (by rw [hnil]; rfl), isDigit_of_foldlM hread⟩

theorem signed?_of_natOfDigits? {digits : List Char} {n : Nat}
    (hread : natOfDigits? 10 digits = some n) :
    signed? digits = if n < 0x8000000000000000 then some (n : Int) else none := by
  obtain ⟨hne, hdigits⟩ := isDigit_of_natOfDigits? hread
  obtain ⟨first, rest, rfl⟩ := List.exists_cons_of_ne_nil hne
  have hfirst := hdigits first List.mem_cons_self
  have hminus : first ≠ '-' := ne_of_isDigit hfirst rfl
  have hplus : first ≠ '+' := ne_of_isDigit hfirst rfl
  unfold signed?
  split
  · next heq => exact absurd (List.cons.inj heq).1 hminus
  · next heq => exact absurd (List.cons.inj heq).1 hplus
  · rw [hread]
    simp only [Option.map_some, Option.filter_some]
    split_ifs with h₁ h₂ h₂
    · rfl
    · simp at h₁; omega
    · simp at h₁; omega
    · rfl

theorem unsigned?_of_natOfDigits? {greatest : Nat} {digits : List Char} {n : Nat}
    (hread : natOfDigits? 10 digits = some n) (hle : n ≤ greatest) :
    unsigned? greatest digits = some n := by
  obtain ⟨hne, hdigits⟩ := isDigit_of_natOfDigits? hread
  obtain ⟨first, rest, rfl⟩ := List.exists_cons_of_ne_nil hne
  have hfirst := hdigits first List.mem_cons_self
  have hplus : first ≠ '+' := ne_of_isDigit hfirst rfl
  unfold unsigned?
  dsimp only
  split
  · next heq => exact absurd (List.cons.inj heq).1 hplus
  · rw [hread]
    simp [hle]

theorem toList_toString (n : Nat) : (toString n).toList = Nat.toDigits 10 n := by
  rw [Nat.toString_eq_ofList_toDigits, String.toList_ofList]

end HandleHeap.Text
