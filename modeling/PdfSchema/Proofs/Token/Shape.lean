import PdfSchema.Proofs.Token.Spelling
import PdfSchema.Text.Blank

namespace PdfSchema.Token

namespace Kind

def starts (k : Kind) (c : Char) : Bool :=
  match k with
  | functionHead => c = 'f'
  | trueWord => c.toLower = 't'
  | falseWord => c.toLower = 'f'
  | quoted => c = '\''
  | modulo => c = 'm'
  | ellipsis => c = '.'
  | keyValue => c = '@'
  | keyPath => c.isAlphanum || c = '*'
  | keyName => isWordChar c || c = '*'
  | pathSeparator => c = ':'
  | openBracket => c = '['
  | closeBracket => c = ']'
  | eq => c = '='
  | ne => c = '!'
  | ge | gt => c = '>'
  | le | lt => c = '<'
  | and => c = '&'
  | or => c = '|'
  | real | integer => c.isDigit || c = '-'
  | plus => c = '+'
  | minus => c = '-'
  | times => c = '*'
  | divide => c = '/'
  | openParen => c = '('
  | closeParen => c = ')'
  | comma => c = ','

def continues (k : Kind) (c : Char) : Bool :=
  match k with
  | functionHead => c.isAlphanum || c = ':' || c = '('
  | trueWord | modulo => c.isAlpha
  | falseWord => c.isAlpha || c = 'ſ'
  | quoted => true
  | ellipsis => c = '.'
  | keyValue => isSegmentChar c || c = '*'
  | keyPath | keyName => isNameChar c || c = '*'
  | pathSeparator => c = ':'
  | eq | ne | ge | le => c = '='
  | and => c = '&'
  | or => c = '|'
  | real => c.isDigit || c = '.'
  | integer => c.isDigit
  | _ => false

end Kind

variable {k : Kind} {r s t a e : List Char} {n : ℕ} {c : Char}

theorem isAlpha_of_toLower (h : c.toLower.isAlpha = true) : c.isAlpha = true := by
  unfold Char.toLower at h
  split at h
  case isTrue hc =>
    simp only [ge_iff_le, UInt32.le_iff_toNat_le] at hc
    exact isAlpha_iff.2 (.inl hc)
  case isFalse => exact h

theorem InAnyCase.exists_of_mem {w : List Char} (h : InAnyCase w r) (hc : c ∈ r) :
    ∃ b ∈ w, c.toLower = b ∨ b = 's' ∧ c = 'ſ' := by
  induction h with
  | nil => cases hc
  | cons hab _ ih =>
    rcases List.mem_cons.1 hc with rfl | hc
    · exact ⟨_, List.mem_cons_self, hab⟩
    · obtain ⟨b, hb, h⟩ := ih hc
      exact ⟨b, List.mem_cons_of_mem _ hb, h⟩

theorem InAnyCase.shape {b : Char} {w : List Char} (h : InAnyCase (b :: w) r) (hb : b ≠ 's')
    (hw : ∀ d ∈ w, d.isAlpha = true) : ∃ c u, r = c :: u ∧ c.toLower = b ∧
      ∀ d ∈ u, d.isAlpha = true ∨ 's' ∈ w ∧ d = 'ſ' := by
  cases h with
  | @cons _ c _ u hc hu =>
    refine ⟨c, u, rfl, hc.resolve_right fun hs ↦ hb hs.1, fun d hd ↦ ?_⟩
    obtain ⟨x, hx, rfl | ⟨rfl, rfl⟩⟩ := InAnyCase.exists_of_mem hu hd
    · exact .inl (isAlpha_of_toLower (hw _ hx))
    · exact .inr ⟨hx, rfl⟩

theorem KeyStart.shape {p : Char → Bool} (h : KeyStart p r) :
    ∃ c w, r = c :: w ∧ (c.isDigit = true ∨ c = '*' ∨ p c = true) ∧
      ∀ d ∈ w, d.isDigit = true ∨ d = '*' ∨ p d = true := by
  obtain ⟨ds, c, hds, hc, rfl⟩ := h
  cases ds with
  | nil => exact ⟨c, [], rfl, .inr hc, by simp⟩
  | cons d ds =>
    refine ⟨d, ds ++ [c], rfl, .inl (hds d List.mem_cons_self), fun b hb ↦ ?_⟩
    rcases List.mem_append.1 hb with hb | hb
    · exact .inl (hds b (List.mem_cons_of_mem _ hb))
    · exact .inr (List.mem_singleton.1 hb ▸ hc)

/-- The shape of a text that spells a kind. -/
def Kind.Shapes (k : Kind) (r : List Char) : Prop :=
  ∃ c w, r = c :: w ∧ k.starts c = true ∧ ∀ d ∈ w, k.continues d = true

theorem Kind.Shapes.append (hr : k.Shapes r) (ha : ∀ d ∈ a, k.continues d = true) :
    k.Shapes (r ++ a) := by
  obtain ⟨c, w, rfl, hc, hw⟩ := hr
  refine ⟨c, w ++ a, rfl, hc, fun d hd ↦ ?_⟩
  rcases List.mem_append.1 hd with hd | hd
  · exact hw d hd
  · exact ha d hd

theorem isNameChar_of_isSegmentChar (h : isSegmentChar c = true) : isNameChar c = true := by
  simp [isNameChar, h]

theorem Segment.shapes (h : Segment r) : Kind.keyPath.Shapes r := by
  obtain ⟨a, b, ha, hb, rfl⟩ := h
  obtain ⟨c, w, rfl, hc, hw⟩ := ha.shape
  refine Kind.Shapes.append ⟨c, w, rfl, ?_, fun d hd ↦ ?_⟩ fun d hd ↦ ?_
  · rcases hc with hc | rfl | hc <;> simp [Kind.starts, Char.isAlphanum, *]
  · rcases hw d hd with hd | rfl | hd <;>
      simp [Kind.continues, isNameChar, isSegmentChar, isWordChar, Char.isAlphanum, *]
  · rcases List.mem_append.1 hd with hd | hd
    · simp [Kind.continues, isNameChar_of_isSegmentChar (hb d hd)]
    · obtain rfl : d = ':' := by simpa using hd
      rfl

theorem Kind.Shapes.continues_keyPath (h : Kind.keyPath.Shapes r) :
    ∀ d ∈ r, Kind.keyPath.continues d = true := by
  obtain ⟨c, w, rfl, hc, hw⟩ := h
  rintro d (_ | ⟨_, hd⟩)
  · simp only [starts, Bool.or_eq_true, decide_eq_true_eq] at hc
    simp only [continues, isNameChar, isSegmentChar, isWordChar, Bool.or_eq_true,
      decide_eq_true_eq]
    tauto
  · exact hw d hd

theorem Numeral.shapes (h : Numeral r) : Kind.integer.Shapes r := by
  rcases h with ⟨hne, hr⟩ | ⟨ds, hds, rfl⟩
  · obtain ⟨c, w, rfl⟩ := List.exists_cons_of_ne_nil hne
    refine ⟨c, w, rfl, ?_, fun d hd ↦ hr d (List.mem_cons_of_mem _ hd)⟩
    simp [Kind.starts, hr c List.mem_cons_self]
  · exact ⟨'-', ds, rfl, rfl, hds.2⟩

theorem Kind.shapes_of_spells (h : k.Spells r) : k.Shapes r := by
  cases k with
  | functionHead =>
    obtain ⟨c, w, hc, -, hw, rfl⟩ := h
    refine ⟨_, _, rfl, rfl, ?_⟩
    have hca : c.isAlpha = true := isAlpha_iff.2 (.inl (isUpper_iff.1 hc))
    have hcw : c.isAlphanum = true := Bool.or_eq_true_iff.2 (.inl hca)
    simp only [List.mem_cons, List.mem_append]
    rintro d (rfl | rfl | rfl | hd | rfl | hd)
    all_goals simp_all [continues]
  | trueWord =>
    have h : InAnyCase ['t', 'r', 'u', 'e'] r := h
    obtain ⟨c, u, rfl, hc, hu⟩ := InAnyCase.shape h (by decide) (List.all_eq_true.1 rfl)
    exact ⟨c, u, rfl, decide_eq_true hc, fun d hd ↦ by simpa [continues] using hu d hd⟩
  | falseWord =>
    have h : InAnyCase ['f', 'a', 'l', 's', 'e'] r := h
    obtain ⟨c, u, rfl, hc, hu⟩ := InAnyCase.shape h (by decide) (List.all_eq_true.1 rfl)
    exact ⟨c, u, rfl, decide_eq_true hc, fun d hd ↦ by simpa [continues] using hu d hd⟩
  | quoted =>
    obtain ⟨w, -, -, rfl⟩ := h
    exact ⟨_, _, rfl, rfl, fun _ _ ↦ rfl⟩
  | keyValue =>
    obtain ⟨w, rfl, ⟨ds, hds, rfl⟩ | ⟨-, hw⟩⟩ := h
    · refine ⟨_, _, rfl, rfl, fun d hd ↦ ?_⟩
      rcases List.mem_append.1 hd with hd | hd
      · simp [continues, isSegmentChar, isWordChar, Char.isAlphanum, hds d hd]
      · obtain rfl : d = '*' := List.mem_singleton.1 hd
        rfl
    · exact ⟨_, _, rfl, rfl, fun d hd ↦ by simp [continues, hw d hd]⟩
  | keyPath =>
    obtain ⟨ss, hne, hss, rfl⟩ := h
    obtain ⟨s, ss, rfl⟩ := List.exists_cons_of_ne_nil hne
    rw [List.flatten_cons]
    refine (hss s List.mem_cons_self).shapes.append fun d hd ↦ ?_
    obtain ⟨s, hs, hd⟩ := List.mem_flatten.1 hd
    exact (hss s (List.mem_cons_of_mem _ hs)).shapes.continues_keyPath d hd
  | keyName =>
    obtain ⟨a, b, ha, hb, rfl⟩ := h
    obtain ⟨c, w, rfl, hc, hw⟩ := ha.shape
    refine Shapes.append ⟨c, w, rfl, ?_, fun d hd ↦ ?_⟩ fun d hd ↦ by simp [continues, hb d hd]
    · rcases hc with hc | rfl | hc
      · simp [starts, isWordChar, Char.isAlphanum, hc]
      · rfl
      · simp only [Bool.or_eq_true, decide_eq_true_eq] at hc
        rcases hc with hc | rfl <;> simp [starts, isWordChar, Char.isAlphanum, *]
    · rcases hw d hd with hd | rfl | hd
      · simp [continues, isNameChar, isSegmentChar, isWordChar, Char.isAlphanum, hd]
      · rfl
      · simp only [Bool.or_eq_true, decide_eq_true_eq] at hd
        rcases hd with hd | rfl <;>
          simp [continues, isNameChar, isSegmentChar, isWordChar, Char.isAlphanum, *]
  | real =>
    obtain ⟨a, ds, ha, hds, rfl⟩ := h
    obtain ⟨c, w, rfl, hc, hw⟩ := ha.shapes
    refine Shapes.append ⟨c, w, rfl, hc, fun d hd ↦ ?_⟩ fun d hd ↦ ?_
    · simpa [continues] using .inl (hw d hd)
    · rcases List.mem_cons.1 hd with rfl | hd
      · rfl
      · simp [continues, hds.2 d hd]
  | integer => exact Numeral.shapes h
  | _ =>
    obtain rfl : r = _ := h
    exact ⟨_, _, rfl, rfl, List.all_eq_true.1 rfl⟩

def IsVisible (c : Char) : Prop := 33 ≤ c.toNat ∧ c.toNat ≤ 126

theorem IsVisible.not_isBlank (h : IsVisible c) : Text.isBlank c = false := by
  obtain ⟨h₁, h₂⟩ := h
  simp only [Text.isBlank, Bool.or_eq_false_iff, Bool.and_eq_false_iff, decide_eq_false_iff_not,
    beq_eq_false_iff_ne]
  omega

theorem isVisible_of_isDigit (h : c.isDigit = true) : IsVisible c := by
  rw [isDigit_iff] at h
  constructor <;> omega

theorem isVisible_of_isAlpha (h : c.isAlpha = true) : IsVisible c := by
  rw [isAlpha_iff] at h
  constructor <;> omega

theorem isVisible_of_isAlphanum (h : c.isAlphanum = true) : IsVisible c :=
  (Bool.or_eq_true_iff.1 h).elim isVisible_of_isAlpha isVisible_of_isDigit

theorem IsVisible.of_or {b : Bool} {d : Char} (h : (b || c = d) = true)
    (hb : b = true → IsVisible c) (hd : IsVisible d) : IsVisible c := by
  rcases Bool.or_eq_true_iff.1 h with h | h
  · exact hb h
  · rwa [of_decide_eq_true h]

theorem isVisible_of_isWordChar (h : isWordChar c = true) : IsVisible c :=
  .of_or h isVisible_of_isAlphanum ⟨by decide, by decide⟩

theorem isVisible_of_isSegmentChar (h : isSegmentChar c = true) : IsVisible c :=
  .of_or h (.of_or · isVisible_of_isWordChar ⟨by decide, by decide⟩) ⟨by decide, by decide⟩

theorem isVisible_of_isNameChar (h : isNameChar c = true) : IsVisible c :=
  .of_or h isVisible_of_isSegmentChar ⟨by decide, by decide⟩

theorem Kind.isVisible_of_starts (h : k.starts c = true) : IsVisible c := by
  cases k with
  | trueWord | falseWord =>
    refine isVisible_of_isAlpha (isAlpha_of_toLower ?_)
    rw [of_decide_eq_true h]
    rfl
  | keyPath => exact .of_or h isVisible_of_isAlphanum ⟨by decide, by decide⟩
  | keyName => exact .of_or h isVisible_of_isWordChar ⟨by decide, by decide⟩
  | real | integer => exact .of_or h isVisible_of_isDigit ⟨by decide, by decide⟩
  | _ =>
    obtain rfl := of_decide_eq_true h
    exact ⟨by decide, by decide⟩

theorem Kind.isVisible_of_continues (h : k.continues c = true) :
    IsVisible c ∨ k = .quoted ∨ k = .falseWord ∧ c = 'ſ' := by
  cases k with
  | functionHead =>
    exact .inl (.of_or h (.of_or · isVisible_of_isAlphanum ⟨by decide, by decide⟩)
      ⟨by decide, by decide⟩)
  | trueWord | modulo => exact .inl (isVisible_of_isAlpha h)
  | falseWord =>
    rcases Bool.or_eq_true_iff.1 h with h | h
    · exact .inl (isVisible_of_isAlpha h)
    · exact .inr (.inr ⟨rfl, of_decide_eq_true h⟩)
  | quoted => exact .inr (.inl rfl)
  | keyPath | keyName => exact .inl (.of_or h isVisible_of_isNameChar ⟨by decide, by decide⟩)
  | keyValue => exact .inl (.of_or h isVisible_of_isSegmentChar ⟨by decide, by decide⟩)
  | real => exact .inl (.of_or h isVisible_of_isDigit ⟨by decide, by decide⟩)
  | integer => exact .inl (isVisible_of_isDigit h)
  | openBracket | closeBracket | gt | lt | plus | minus | times | divide | openParen | closeParen
  | comma => cases h
  | _ =>
    obtain rfl := of_decide_eq_true h
    exact .inl ⟨by decide, by decide⟩

/-- Whether a character ends every token before it, but for one between quotes. -/
def IsSeparator (c : Char) : Prop := ∀ k : Kind, k.continues c = true → k = .quoted

theorem isSeparator_of_isBlank (h : Text.isBlank c = true) : IsSeparator c := by
  intro k hk
  rcases k.isVisible_of_continues hk with hc | hq | ⟨rfl, rfl⟩
  · rw [hc.not_isBlank] at h
    cases h
  · exact hq
  · revert h
    decide

theorem IsSeparator.not_isWordChar (h : IsSeparator c) : isWordChar c = false := by
  by_contra hw
  rw [Bool.not_eq_false] at hw
  have hk : Kind.keyName.continues c = true := by
    simp [Kind.continues, isNameChar, isSegmentChar, hw]
  cases h _ hk

end PdfSchema.Token
