import Mathlib.Data.List.Induction
import Mathlib.Data.Nat.Notation
import Mathlib.Logic.Function.Defs
import Mathlib.Tactic.Ring
import PdfSchema.Text.Numeral

namespace PdfSchema

theorem toList_toString (n : ℕ) : (toString n).toList = Nat.toDigits 10 n := by simp

theorem isDigit_of_mem_toString {c : Char} {n : ℕ} (h : c ∈ (toString n).toList) :
    c.isDigit = true := by
  rw [toList_toString] at h
  exact Nat.isDigit_of_mem_toDigits (by decide) (by decide) h

theorem slash_notMem_toString (n : ℕ) : '/' ∉ (toString n).toList :=
  fun h ↦ absurd (isDigit_of_mem_toString h) (by decide)

theorem toString_injective : Function.Injective (toString : ℕ → String) := by
  intro n m h
  have hdigits : Nat.toDigits 10 n = Nat.toDigits 10 m := by simpa using congrArg String.toList h
  rw [← @Nat.ofDigitChars_ten_toDigits n, hdigits, Nat.ofDigitChars_ten_toDigits]

namespace Text

variable {s : List Char} {bound n : ℕ}

theorem isDigit_of_mem_toDigits {d : Char} (h : d ∈ Nat.toDigits 10 n) : d.isDigit = true :=
  Nat.isDigit_of_mem_toDigits (by decide) (by decide) h

theorem toNat_bounds_of_isDigit {d : Char} (h : d.isDigit = true) :
    48 ≤ d.toNat ∧ d.toNat ≤ 57 := by
  simpa [Char.isDigit, Char.le_def, UInt32.le_iff_toNat_le] using h

theorem digit_lt_ten {d : Char} (h : d.isDigit = true) : d.toNat - '0'.toNat < 10 := by
  have hbounds := toNat_bounds_of_isDigit h
  change d.toNat - 48 < 10
  omega

theorem toDigits_of_isDigit {d : Char} (h : d.isDigit = true) :
    Nat.toDigits 10 (d.toNat - '0'.toNat) = [d] := by
  have hbounds := toNat_bounds_of_isDigit h
  rw [Nat.toDigits_of_lt_base (digit_lt_ten h)]
  refine congrArg (fun d ↦ [d]) (Char.toNat_inj.1 ?_)
  rw [Nat.toNat_digitChar_of_lt_ten (digit_lt_ten h)]
  change 48 + (d.toNat - 48) = d.toNat
  omega

theorem decimalValue_toDigits (n : ℕ) : decimalValue (Nat.toDigits 10 n) = n := by
  rw [decimalValue, ← Nat.ofDigitChars_eq_foldl, Nat.ofDigitChars_ten_toDigits]

theorem decimalValue_snoc (s : List Char) (d : Char) :
    decimalValue (s ++ [d]) = 10 * decimalValue s + (d.toNat - '0'.toNat) := List.foldl_append

theorem decimalValue_replicate_append (z : ℕ) (s : List Char) :
    decimalValue (List.replicate z '0' ++ s) = decimalValue s := by
  induction z with
  | zero => rfl
  | succ z ih => exact ih

/-- What digits come to by their places: each counts as often as the power of ten that stands for
its place says. -/
def placeValue : List Char → ℕ
  | [] => 0
  | d :: s => (d.toNat - '0'.toNat) * 10 ^ s.length + placeValue s

theorem decimalValue_eq_placeValue (s : List Char) : decimalValue s = placeValue s := by
  have hfrom (n : ℕ) : s.foldl (fun n c ↦ 10 * n + (c.toNat - '0'.toNat)) n =
      n * 10 ^ s.length + placeValue s := by
    induction s generalizing n with
    | nil => simp [placeValue]
    | cons d s ih =>
      rw [List.foldl_cons, ih, placeValue, List.length_cons, pow_succ']
      ring
  rw [decimalValue, hfrom, Nat.zero_mul, Nat.zero_add]

theorem exists_eq_replicate_append (hne : s ≠ []) (hs : ∀ d ∈ s, d.isDigit = true) :
    ∃ z, s = List.replicate z '0' ++ Nat.toDigits 10 (decimalValue s) := by
  induction s using List.reverseRecOn with
  | nil => exact absurd rfl hne
  | append_singleton s d ih =>
    have hd : d.isDigit = true := hs d (by simp)
    rw [decimalValue_snoc]
    by_cases hnil : s = []
    · subst hnil
      refine ⟨0, ?_⟩
      change [d] = Nat.toDigits 10 (0 + (d.toNat - '0'.toNat))
      rw [Nat.zero_add, toDigits_of_isDigit hd]
    · obtain ⟨z, hz⟩ := ih hnil fun c hc ↦ hs c (List.mem_append_left _ hc)
      rcases Nat.eq_zero_or_pos (decimalValue s) with hzero | hpos
      · -- Only zeros came before, and the last digit is the numeral.
        rw [hzero] at hz ⊢
        refine ⟨z + 1, ?_⟩
        rw [Nat.mul_zero, Nat.zero_add, toDigits_of_isDigit hd, hz, List.replicate_succ']
        rfl
      · refine ⟨z, ?_⟩
        rw [← Nat.toDigits_append_toDigits (by decide) hpos (digit_lt_ten hd),
          toDigits_of_isDigit hd, ← List.append_assoc, ← hz]

theorem natural?_eq_some_iff_digits : natural? bound s = some n ↔ ∃ sign digits,
    (sign = [] ∨ sign = ['+']) ∧ s = sign ++ digits ∧ digits ≠ [] ∧
      (∀ d ∈ digits, d.isDigit = true) ∧ decimalValue digits = n ∧ n < bound := by
  constructor
  · intro h
    unfold natural? at h
    extract_lets digits at h
    obtain ⟨sign, hsign, hs⟩ : ∃ sign, (sign = [] ∨ sign = ['+']) ∧ s = sign ++ digits := by
      simp only [digits]
      split
      · exact ⟨['+'], .inr rfl, rfl⟩
      · exact ⟨[], .inl rfl, rfl⟩
    split at h
    · cases h
    · rename_i hdigits
      simp only [Bool.or_eq_true, List.isEmpty_iff, Bool.not_eq_true', not_or,
        Bool.not_eq_false, List.all_eq_true] at hdigits
      split at h
      · rename_i hlt
        cases h
        exact ⟨sign, digits, hsign, hs, hdigits.1, hdigits.2, rfl, hlt⟩
      · cases h
  · rintro ⟨sign, digits, hsign, rfl, hne, hdigits, rfl, hlt⟩
    have hall : digits.all Char.isDigit = true := List.all_eq_true.2 hdigits
    rcases hsign with rfl | rfl
    · obtain ⟨d, digits, rfl⟩ := List.exists_cons_of_ne_nil hne
      have hplus : d ≠ '+' := by
        rintro rfl
        exact absurd (hdigits '+' List.mem_cons_self) (by decide)
      simp [natural?, hplus, hall, hlt]
    · simp [natural?, hne, hall, hlt]

theorem natural?_toDigits (h : n < bound) : natural? bound (Nat.toDigits 10 n) = some n :=
  natural?_eq_some_iff_digits.2 ⟨[], _, .inl rfl, rfl, Nat.toDigits_ne_nil,
    fun _ ↦ isDigit_of_mem_toDigits, decimalValue_toDigits n, h⟩

/-- Whether a text is a numeral with zeros in front that are not needed, or with a sign. -/
def IsPadded (s : List Char) (n : ℕ) : Prop :=
  ∃ sign z, (sign = [] ∧ 0 < z ∨ sign = ['+']) ∧
    s = sign ++ (List.replicate z '0' ++ Nat.toDigits 10 n)

theorem natural?_eq_some_iff :
    natural? bound s = some n ↔ n < bound ∧ (s = Nat.toDigits 10 n ∨ IsPadded s n) := by
  constructor
  · intro h
    obtain ⟨sign, digits, hsign, hs, hne, hdigits, rfl, hlt⟩ := natural?_eq_some_iff_digits.1 h
    obtain ⟨z, hz⟩ := exists_eq_replicate_append hne hdigits
    refine ⟨hlt, ?_⟩
    rw [hz] at hs
    rcases hsign with rfl | rfl
    · rcases Nat.eq_zero_or_pos z with rfl | hpos
      · exact .inl hs
      · exact .inr ⟨[], z, .inl ⟨rfl, hpos⟩, hs⟩
    · exact .inr ⟨['+'], z, .inr rfl, hs⟩
  · rintro ⟨hlt, rfl | ⟨sign, z, hsign, rfl⟩⟩
    · exact natural?_toDigits hlt
    · refine natural?_eq_some_iff_digits.2 ⟨sign, _, hsign.imp_left And.left, rfl, ?_, ?_, ?_, hlt⟩
      · simp [Nat.toDigits_ne_nil]
      · intro d hd
        rcases List.mem_append.1 hd with hd | hd
        · rw [List.eq_of_mem_replicate hd]
          rfl
        · exact isDigit_of_mem_toDigits hd
      · rw [decimalValue_replicate_append, decimalValue_toDigits]

theorem IsPadded.ne_toDigits (h : IsPadded s n) (m : ℕ) : s ≠ Nat.toDigits 10 m := by
  rintro rfl
  have hread : natural? (m + n + 1) (Nat.toDigits 10 m) = some n :=
    natural?_eq_some_iff.2 ⟨by omega, .inr h⟩
  obtain rfl : m = n := Option.some.inj ((natural?_toDigits (by omega)).symm.trans hread)
  obtain ⟨sign, z, hsign, heq⟩ := h
  have hlength := congrArg List.length heq
  simp only [List.length_append, List.length_replicate] at hlength
  rcases hsign with ⟨rfl, hz⟩ | rfl
  · simp only [List.length_nil] at hlength
    omega
  · simp only [List.length_singleton] at hlength
    omega

end Text

end PdfSchema
