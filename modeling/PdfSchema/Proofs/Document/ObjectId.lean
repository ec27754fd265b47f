import PdfSchema.Proofs.Document.Encoding
import PdfSchema.Proofs.Text.Words

namespace PdfSchema

namespace Text

/-- Digits that come to `n`, with or without a sign `+` in front. -/
def IsField (f : List Char) (n : ℕ) : Prop :=
  ∃ digits, (f = digits ∨ f = '+' :: digits) ∧ digits ≠ [] ∧
    (∀ d ∈ digits, d.isDigit = true) ∧ placeValue digits = n

variable {f s : List Char} {bound n : ℕ}

theorem natural?_eq_some_iff_isField : natural? bound s = some n ↔ IsField s n ∧ n < bound := by
  rw [natural?_eq_some_iff_digits]
  constructor
  · rintro ⟨sign, digits, hsign, hs, hne, hdigits, hvalue, hlt⟩
    refine ⟨⟨digits, ?_, hne, hdigits, (decimalValue_eq_placeValue digits).symm.trans hvalue⟩, hlt⟩
    rcases hsign with rfl | rfl
    · exact .inl hs
    · exact .inr hs
  · rintro ⟨⟨digits, hs, hne, hdigits, hvalue⟩, hlt⟩
    have hvalue := (decimalValue_eq_placeValue digits).trans hvalue
    rcases hs with rfl | rfl
    · exact ⟨[], s, .inl rfl, rfl, hne, hdigits, hvalue, hlt⟩
    · exact ⟨['+'], digits, .inr rfl, rfl, hne, hdigits, hvalue, hlt⟩

theorem exists_natural?_iff {α : Type} {ofNat : ℕ → α} {toNat : α → ℕ}
    (hlt : ∀ a, toNat a < bound) (hofNat : ∀ a, ofNat (toNat a) = a)
    (htoNat : ∀ n < bound, toNat (ofNat n) = n) {a : α} :
    (∃ n, natural? bound s = some n ∧ ofNat n = a) ↔ IsField s (toNat a) := by
  constructor
  · rintro ⟨n, hn, rfl⟩
    obtain ⟨hfield, hlt⟩ := natural?_eq_some_iff_isField.1 hn
    rwa [htoNat n hlt]
  · intro h
    exact ⟨toNat a, natural?_eq_some_iff_isField.2 ⟨h, hlt a⟩, hofNat a⟩

theorem IsField.ne_nil (h : IsField f n) : f ≠ [] := by
  obtain ⟨digits, rfl | rfl, hne, -⟩ := h
  · exact hne
  · exact List.cons_ne_nil _ _

theorem IsField.not_isBlank (h : IsField f n) : ∀ c ∈ f, isBlank c = false := by
  obtain ⟨digits, hf, -, hdigits, -⟩ := h
  have hnot : ∀ d ∈ digits, isBlank d = false :=
    fun d hd ↦ (Token.isVisible_of_isDigit (hdigits d hd)).not_isBlank
  rcases hf with rfl | rfl
  · exact hnot
  · exact List.forall_mem_cons.2 ⟨by decide, hnot⟩

end Text

namespace ObjectId

open Text

/-- The texts that a number and a generation may be written as. A generation that is left out is 0,
and blanks may stand at both ends. -/
inductive Written : List Char → ℕ → ℕ → Prop
  | number {before f after : List Char} {n : ℕ} (hbefore : AllBlank before) (hf : IsField f n)
      (hafter : AllBlank after) : Written (before ++ (f ++ after)) n 0
  | both {before f gap f' after : List Char} {n g : ℕ} (hbefore : AllBlank before)
      (hf : IsField f n) (hne : gap ≠ []) (hgap : AllBlank gap) (hf' : IsField f' g)
      (hafter : AllBlank after) : Written (before ++ (f ++ (gap ++ (f' ++ after)))) n g

variable {s : List Char} {ws : List (List Char)} {id : ObjectId} {n g : ℕ}

theorem isBlank_of_mem_head?_append {b : List Char} (hne : b ≠ []) (hb : AllBlank b)
    (s : List Char) : ∀ c ∈ (b ++ s).head?, isBlank c = true := by
  obtain ⟨c, b, rfl⟩ := List.exists_cons_of_ne_nil hne
  rintro _ ⟨⟩
  exact hb c List.mem_cons_self

theorem written_iff : Written s n g ↔ (∃ f, words s = [f] ∧ IsField f n ∧ g = 0) ∨
    ∃ f f', words s = [f, f'] ∧ IsField f n ∧ IsField f' g := by
  constructor
  · rintro (⟨hbefore, hf, hafter⟩ | ⟨hbefore, hf, hne, hgap, hf', hafter⟩)
    · refine .inl ⟨_, words_of_madeOf ⟨_, _, rfl, hbefore, hf.ne_nil, hf.not_isBlank, ?_, hafter⟩,
        hf, rfl⟩
      exact fun c hc ↦ hafter c (List.mem_of_mem_head? hc)
    · refine .inr ⟨_, _, words_of_madeOf ⟨_, _, rfl, hbefore, hf.ne_nil, hf.not_isBlank,
        isBlank_of_mem_head?_append hne hgap _, _, _, rfl, hgap, hf'.ne_nil, hf'.not_isBlank, ?_,
        hafter⟩, hf, hf'⟩
      exact fun c hc ↦ hafter c (List.mem_of_mem_head? hc)
  · rintro (⟨f, hwords, hf, rfl⟩ | ⟨f, f', hwords, hf, hf'⟩)
    · obtain ⟨before, after, rfl, hbefore, -, -, -, hafter⟩ := words_eq_iff.1 hwords
      exact .number hbefore hf hafter
    · obtain ⟨before, _, rfl, hbefore, -, -, hhead, gap, after, rfl, hgap, -, -, -, hafter⟩ :=
        words_eq_iff.1 hwords
      refine .both hbefore hf ?_ hgap hf' hafter
      -- Without a gap the second field would start with a blank.
      rintro rfl
      obtain ⟨c, f', rfl⟩ := List.exists_cons_of_ne_nil hf'.ne_nil
      have hblank := hhead c rfl
      rw [hf'.not_isBlank c List.mem_cons_self] at hblank
      cases hblank

theorem ofWords?_eq_some_iff : ofWords? ws = some id ↔
    (∃ f, ws = [f] ∧ IsField f id.number.toNat ∧ id.generation.toNat = 0) ∨
      ∃ f f', ws = [f, f'] ∧ IsField f id.number.toNat ∧ IsField f' id.generation.toNat := by
  obtain ⟨number, generation⟩ := id
  have hnumber (f : List Char) : (∃ n, natural? UInt32.size f = some n ∧
      UInt32.ofNat n = number) ↔ IsField f number.toNat :=
    exists_natural?_iff UInt32.toNat_lt (fun _ ↦ UInt32.ofNat_toNat)
      fun _ ↦ UInt32.toNat_ofNat_of_lt'
  have hgeneration (f : List Char) : (∃ g, natural? UInt16.size f = some g ∧
      UInt16.ofNat g = generation) ↔ IsField f generation.toNat :=
    exists_natural?_iff UInt16.toNat_lt (fun _ ↦ UInt16.ofNat_toNat)
      fun _ ↦ UInt16.toNat_ofNat_of_lt'
  simp only [← hnumber, ← hgeneration]
  have hzero : generation.toNat = 0 ↔ 0 = generation := by
    rw [← UInt16.toNat_inj, eq_comm]
    rfl
  rcases ws with _ | ⟨f, _ | ⟨f', _ | ⟨f'', ws⟩⟩⟩
  · simp [ofWords?]
  · simp only [ofWords?, Option.bind_eq_bind, Option.bind_eq_some_iff, Option.pure_def,
      Option.some_inj, ObjectId.mk.injEq, hzero]
    grind
  · simp only [ofWords?, Option.bind_eq_bind, Option.bind_eq_some_iff, Option.pure_def,
      Option.some_inj, ObjectId.mk.injEq]
    grind
  · simp [ofWords?]

theorem parse?_eq_some_iff {s : String} :
    parse? s = some id ↔ Written s.toList id.number.toNat id.generation.toNat := by
  rw [parse?, ofWords?_eq_some_iff, written_iff]

/-- The text that an id is shown as is read as the id, and a text is read as an id exactly if it is
one or two fields between blanks whose values a number and a generation can have. The id has these
values. -/
theorem parse?_exact : (∀ id : ObjectId, parse? id.render = some id) ∧
    ∀ s : String, ((parse? s).isSome = true ↔
        ∃ n g, Written s.toList n g ∧ n ≤ 2 ^ 32 - 1 ∧ g ≤ 2 ^ 16 - 1) ∧
      ∀ id, parse? s = some id ↔ Written s.toList id.number.toNat id.generation.toNat := by
  refine ⟨parse?_render, fun s ↦ ⟨?_, fun id ↦ parse?_eq_some_iff⟩⟩
  rw [Option.isSome_iff_exists]
  constructor
  · rintro ⟨id, hid⟩
    refine ⟨_, _, parse?_eq_some_iff.1 hid, ?_, ?_⟩
    · exact Nat.le_sub_one_of_lt id.number.toNat_lt
    · exact Nat.le_sub_one_of_lt id.generation.toNat_lt
  · rintro ⟨n, g, h, hn, hg⟩
    refine ⟨⟨.ofNat n, .ofNat g⟩, parse?_eq_some_iff.2 ?_⟩
    rwa [UInt32.toNat_ofNat_of_lt' (by change n < 2 ^ 32; omega),
      UInt16.toNat_ofNat_of_lt' (by change g < 2 ^ 16; omega)]

example : parse? "  +0007 	+65535" = some ⟨7, 65535⟩ ∧ parse? "4294967296" = none := by
  decide +kernel

end ObjectId

end PdfSchema
