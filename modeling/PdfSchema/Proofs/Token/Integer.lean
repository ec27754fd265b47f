import PdfSchema.Proofs.Text.Numeral
import PdfSchema.Proofs.Token.Word

namespace PdfSchema.Token

variable {s : List Char} {w : String} {ws : List String}

theorem Digits.first?_minus (h : Digits s) :
    first? ('-' :: s) = some (.integer, s.length + 1) := by
  have hstarts : ∀ k ∈ Kind.byPriority.takeWhile (· ≠ .integer),
      k.starts '-' = true → k = .real := by decide
  refine first?_eq_some (Kind.match?_eq_length (.inr ⟨s, h, rfl⟩)) fun k hk ↦ ?_
  by_contra hfits
  obtain ⟨n, hn⟩ := Option.ne_none_iff_exists'.1 hfits
  obtain rfl := hstarts k hk (Kind.starts_of_match? hn)
  -- A real number has a point in it.
  obtain ⟨r, a, hs, -, ⟨b, ds, -, -, rfl⟩, -⟩ := Kind.spells_of_match? hn
  have hpoint : '.' ∈ '-' :: s := by simp [hs]
  rcases List.mem_cons.1 hpoint with hpoint | hpoint
  · cases hpoint
  · exact absurd (h.2 '.' hpoint) (by decide)

instance : DecidablePred Digits := fun r ↦ @instDecidableAnd _ _ _ (List.decidableBAll _ r)

instance : DecidablePred Numeral := fun r ↦
  decidable_of_iff (Digits r ∨ Digits r.tail ∧ r = '-' :: r.tail) <| or_congr_right
    ⟨fun ⟨h, hr⟩ ↦ ⟨_, h, hr⟩, fun ⟨_, h, hr⟩ ↦ by rw [hr]; exact ⟨h, rfl⟩⟩

def IsInteger (w : String) : Prop := Numeral w.toList ∧ inRange (integerValue w.toList) = true

instance : DecidablePred IsInteger := fun _ ↦ inferInstanceAs (Decidable (_ ∧ _))

theorem Numeral.first? (h : Numeral w.toList) :
    first? w.toList = some (.integer, w.toList.length) := by
  rcases h with ⟨hne, hdigits⟩ | ⟨ds, hds, hw⟩
  · have hdigits := List.all_eq_true.2 hdigits
    have hword : IsWord w := by
      refine ⟨mt String.toList_eq_nil_iff.2 hne, fun c hc ↦ ?_⟩
      rw [Char.isAlphanum, List.all_eq_true.1 hdigits c hc, Bool.or_true]
    rw [first?_word hword, wordKind, keyword?_of_digits hdigits, hdigits]
    rfl
  · rw [hw]
    exact hds.first?_minus

theorem IsInteger.scan (h : IsInteger w) : scan w = .ok [⟨.integer, w⟩] := by
  rw [scan_of_first? h.1.first?, ofRaw, h.2]
  simp [Except.map]

theorem scan_integers (h : ∀ v ∈ w :: ws, IsInteger v) :
    Token.scan (" ".intercalate (w :: ws)) = .ok ((w :: ws).map (⟨.integer, ·⟩)) := by
  induction ws generalizing w with
  | nil => simpa using (h w List.mem_cons_self).scan
  | cons v ws ih =>
    obtain ⟨hw, hws⟩ := List.forall_mem_cons.1 h
    rw [String.intercalate_cons_cons, scan_append_gap hw.scan (by decide), ih hws]
    rfl

theorem IsInteger.chars (h : IsInteger w) : ∀ c ∈ w.toList, c.isDigit = true ∨ c = '-' := by
  rcases h.1 with h | ⟨ds, h, hw⟩
  · exact fun c hc ↦ .inl (h.2 c hc)
  · rw [hw]
    exact List.forall_mem_cons.2 ⟨.inr rfl, fun c hc ↦ .inl (h.2 c hc)⟩

theorem IsInteger.ne_empty (h : IsInteger w) : w ≠ "" := by
  rintro rfl
  rcases h.1 with h | ⟨ds, -, hw⟩
  · exact h.1 rfl
  · cases hw

def numeralValue : List Char → ℤ
  | '-' :: ds => -(Text.placeValue ds : ℤ)
  | ds => Text.placeValue ds

theorem integerValue_eq_numeralValue (s : List Char) : integerValue s = numeralValue s := by
  unfold numeralValue
  split
  case h_1 ds => rw [integerValue, Text.decimalValue_eq_placeValue]
  case h_2 hs =>
    rw [integerValue, Text.decimalValue_eq_placeValue]
    exact hs

theorem Digits.numeralValue (h : Digits s) : numeralValue s = Text.placeValue s := by
  rw [← integerValue_eq_numeralValue, integerValue_of_digits h.2, Text.decimalValue_eq_placeValue]

def Holdable (n : ℤ) : Prop := -2 ^ 63 ≤ n ∧ n ≤ 2 ^ 63 - 1

instance (n : ℤ) : Decidable (Holdable n) := inferInstanceAs (Decidable (_ ∧ _))

theorem inRange_iff {n : ℤ} : inRange n = true ↔ Holdable n := by
  rw [inRange, Bool.and_eq_true, decide_eq_true_iff, decide_eq_true_iff, Holdable]
  omega

/-- Whether a text is read as one integer, which stands for `n`, or else is refused as a whole since
`n` cannot be held. -/
def ReadAsInteger (w : String) (n : ℤ) : Prop :=
  if Holdable n then ∃ t : Token, scan w = .ok [t] ∧ t.kind = .integer ∧ t.raw = w ∧
    t.literal = some (.integer n)
  else scan w = .error (.numberOutOfRange w)

theorem Numeral.readAsInteger (h : Numeral w.toList) :
    ReadAsInteger w (Token.numeralValue w.toList) := by
  have hscan := scan_of_first? h.first?
  unfold ReadAsInteger
  split
  case isTrue hn =>
    rw [← integerValue_eq_numeralValue, ← inRange_iff] at hn
    refine ⟨⟨.integer, w⟩, IsInteger.scan ⟨h, hn⟩, rfl, rfl, ?_⟩
    rw [literal, integerValue_eq_numeralValue]
  case isFalse hn =>
    rw [← integerValue_eq_numeralValue, ← inRange_iff, Bool.not_eq_true] at hn
    rw [hscan, ofRaw, hn]
    simp [Except.map]

/-- Digits with or without a sign `-` are one integer of the value that their places give, or are
refused as a whole; and each integer that is read of a text stands for the value of its numeral. -/
theorem integers_exact :
    (∀ ds : String, Digits ds.toList → ReadAsInteger ds (Text.placeValue ds.toList) ∧
      ReadAsInteger ("-" ++ ds) (-(Text.placeValue ds.toList : ℤ))) ∧
    ∀ (s : String) (ts : List Token), scan s = .ok ts → ∀ t ∈ ts, t.kind = .integer →
      Numeral t.raw.toList ∧ t.literal = some (.integer (numeralValue t.raw.toList)) ∧
        Holdable (numeralValue t.raw.toList) := by
  constructor
  · intro ds hds
    constructor
    · rw [← hds.numeralValue]
      exact Numeral.readAsInteger (.inl hds)
    · have hminus : ("-" ++ ds).toList = '-' :: ds.toList := by simp
      have hnumeral : Numeral ("-" ++ ds).toList := .inr ⟨_, hds, hminus⟩
      have hvalue : numeralValue ("-" ++ ds).toList = -(Text.placeValue ds.toList : ℤ) := by
        rw [hminus, numeralValue]
      rw [← hvalue]
      exact hnumeral.readAsInteger
  · intro s ts hscan t ht hkind
    have hreads := scan_eq_ok_iff.1 hscan
    have hnumeral : Numeral t.raw.toList := by
      have hspells := hreads.spells ht
      rwa [hkind] at hspells
    refine ⟨hnumeral, ?_, ?_⟩
    · rw [literal, hkind, integerValue_eq_numeralValue]
    · have hraw := (hreads.readAlone ht).ofRaw
      rw [← integerValue_eq_numeralValue, ← inRange_iff]
      by_contra hn
      rw [Bool.not_eq_true] at hn
      rw [hkind, ofRaw, hn] at hraw
      cases hraw

/-- The least integer is one with its sign only, however many zeros stand in front. -/
theorem integers_exact_limit : Digits "009223372036854775808".toList ∧
    scan "009223372036854775808" = .error (.numberOutOfRange "009223372036854775808") ∧
    (∃ t : Token, scan "-009223372036854775808" = .ok [t] ∧ t.kind = .integer ∧
      t.raw = "-009223372036854775808" ∧ t.literal = some (.integer (-9223372036854775808))) ∧
    scan "a -007" = .ok [⟨.keyName, "a"⟩, ⟨.integer, "-007"⟩] ∧
    (⟨.integer, "-007"⟩ : Token).literal = some (.integer (-7)) := by
  have hdigits : Digits "009223372036854775808".toList := by decide +kernel
  have hvalue : Text.placeValue "009223372036854775808".toList = 9223372036854775808 := by
    decide +kernel
  obtain ⟨hplus, hminus⟩ := integers_exact.1 _ hdigits
  rw [hvalue, ReadAsInteger] at hplus hminus
  rw [if_neg (by decide)] at hplus
  rw [if_pos (by decide)] at hminus
  have hscan : scan "a -007" = .ok [⟨.keyName, "a"⟩, ⟨.integer, "-007"⟩] := by decide +kernel
  have hliteral := (integers_exact.2 _ _ hscan ⟨.integer, "-007"⟩ (by simp) rfl).2.1
  have hseven : numeralValue "-007".toList = -7 := by decide +kernel
  rw [hseven] at hliteral
  exact ⟨hdigits, hplus, hminus, hscan, hliteral⟩

end PdfSchema.Token
