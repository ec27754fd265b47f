import PdfSchema.Proofs.Token.Reading

namespace PdfSchema.Token

def IsWord (w : String) : Prop := w ≠ "" ∧ ∀ c ∈ w.toList, c.isAlphanum = true

instance (w : String) : Decidable (IsWord w) :=
  @instDecidableAnd _ _ _ (List.decidableBAll _ w.toList)

/-- The kind of the words that mean something else than a name: `true` and `false` in any mix of
cases, and `mod`. -/
def keyword? (w : String) : Option Kind :=
  if w.toList.map Char.toLower = "true".toList then some .trueWord
  else if w.toList.map Char.toLower = "false".toList then some .falseWord
  else if w = "mod" then some .modulo
  else none

def wordKind (w : String) : Kind :=
  (keyword? w).getD (if w.toList.all Char.isDigit then .integer else .keyName)

def FitsInteger (w : String) : Prop :=
  w.toList.all Char.isDigit = true → Text.decimalValue w.toList < 0x8000000000000000

instance (w : String) : Decidable (FitsInteger w) := inferInstanceAs (Decidable (_ → _))

variable {k : Kind} {r s : List Char} {w : String} {n : ℕ}

theorem inAnyCase_iff {v : List Char} (hr : ∀ c ∈ r, c.isAlphanum = true) :
    InAnyCase v r ↔ r.map Char.toLower = v := by
  constructor
  · intro h
    induction h with
    | nil => rfl
    | @cons a b v r hab _ ih =>
      obtain ⟨hb, hr⟩ := List.forall_mem_cons.1 hr
      rcases hab with hab | ⟨-, rfl⟩
      · rw [List.map_cons, hab, ih hr]
      · exact absurd hb (by decide)
  · rintro rfl
    rw [InAnyCase, List.forall₂_map_left_iff, List.forall₂_same]
    exact fun c _ ↦ .inl rfl

theorem keyword?_cases (h : keyword? w = some k) :
    k = .trueWord ∧ w.toList.map Char.toLower = "true".toList ∨
      k = .falseWord ∧ w.toList.map Char.toLower = "false".toList ∨ k = .modulo ∧ w = "mod" := by
  unfold keyword? at h
  grind

theorem isWord_of_keyword? (h : keyword? w = some k) : k.isWord = true := by
  rcases keyword?_cases h with ⟨rfl, -⟩ | ⟨rfl, -⟩ | ⟨rfl, -⟩ <;> rfl

theorem keyword?_eq_some_iff (hw : ∀ c ∈ w.toList, c.isAlphanum = true) :
    keyword? w = some k ↔ k.isWord = true ∧ k.Spells w.toList := by
  constructor
  · intro h
    refine ⟨isWord_of_keyword? h, ?_⟩
    rcases keyword?_cases h with ⟨rfl, hlower⟩ | ⟨rfl, hlower⟩ | ⟨rfl, rfl⟩
    · exact (inAnyCase_iff hw).2 hlower
    · exact (inAnyCase_iff hw).2 hlower
    · rfl
  · rintro ⟨hk, hs⟩
    cases k with
    | trueWord => exact if_pos ((inAnyCase_iff hw).1 hs)
    | falseWord =>
      have hlower := (inAnyCase_iff hw).1 hs
      rw [keyword?, hlower]
      rfl
    | modulo =>
      obtain rfl : w = "mod" := String.toList_injective hs
      decide
    | _ => cases hk

/-- Of the patterns, those of the keywords fit a word, that of an integer, and that of a name unless
the word is a numeral. -/
theorem Kind.of_match?_word (hs : ∀ c ∈ s, c.isAlphanum = true) (h : k.match? s = some n) :
    k.isWord = true ∧ k.Spells s ∨ k = .keyName ∧ s.all Char.isDigit = false ∨ k = .integer := by
  obtain ⟨r, a, rfl, -, hr, ha⟩ := spells_of_match? h
  obtain ⟨hralnum, haalnum⟩ := List.forall_mem_append.1 hs
  by_cases hk : k.isWord = true
  · cases a with
    | nil => exact .inl ⟨hk, by rwa [List.append_nil]⟩
    | cons c a =>
      have hword := ha hk c rfl
      rw [isWordChar, haalnum c List.mem_cons_self] at hword
      cases hword
  obtain ⟨c, v, rfl, hc, -⟩ := shapes_of_spells hr
  have hcalnum := hralnum c List.mem_cons_self
  cases k with
  | integer => exact .inr (.inr rfl)
  | keyName =>
    obtain ⟨_, b, ⟨ds, d, -, hd, rfl⟩, -, hcv⟩ := hr
    have hmem : d ∈ c :: v := by simp [hcv]
    refine .inr (.inl ⟨rfl, List.all_eq_false.2 ⟨d, List.mem_append_left _ hmem, ?_⟩⟩)
    rcases hd with rfl | hd
    · decide
    · rcases Bool.or_eq_true_iff.1 hd with hd | hd
      · simp [not_isDigit_of_isAlpha hd]
      · rw [of_decide_eq_true hd]
        decide
  | functionHead =>
    obtain ⟨_, _, _, _, _, hcv⟩ := hr
    exact absurd (hralnum ':' (by simp [hcv])) (by decide)
  | keyPath =>
    obtain ⟨ss, hne, hsegments, hcv⟩ := hr
    obtain ⟨segment, ss, rfl⟩ := List.exists_cons_of_ne_nil hne
    obtain ⟨x, y, -, -, rfl⟩ := hsegments _ List.mem_cons_self
    exact absurd (hralnum ':' (by simp [hcv])) (by decide)
  | real =>
    obtain ⟨_, _, _, _, hcv⟩ := hr
    exact absurd (hralnum '.' (by simp [hcv])) (by decide)
  | trueWord | falseWord | modulo => exact absurd rfl hk
  | _ =>
    obtain rfl := of_decide_eq_true hc
    exact absurd hcalnum (by decide)

theorem first?_eq_some (hk : k.match? s = some n)
    (hbefore : ∀ k' ∈ Kind.byPriority.takeWhile (· ≠ k), k'.match? s = none) :
    first? s = some (k, n) := by
  obtain ⟨before, after, hsplit, hnotMem⟩ := List.eq_append_cons_of_mem (Kind.mem_byPriority k)
  have htake : Kind.byPriority.takeWhile (· ≠ k) = before := by
    rw [hsplit, List.takeWhile_append_of_pos fun k' hk' ↦ ?_]
    · simp
    · exact decide_eq_true fun h ↦ hnotMem (h ▸ hk')
  rw [htake] at hbefore
  refine List.findSome?_eq_some_iff.2 ⟨before, k, after, hsplit, by rw [hk]; rfl, fun k' hk' ↦ ?_⟩
  rw [hbefore k' hk']
  rfl

theorem Kind.match?_eq_length (h : k.Spells s) : k.match? s = some s.length := by
  obtain ⟨n, hn, hm⟩ := match?_of_spells (a := []) h fun _ c hc ↦ nomatch hc
  rw [List.append_nil] at hm
  obtain ⟨r, a, rfl, rfl, -, -⟩ := spells_of_match? hm
  rw [hm, Nat.le_antisymm hn (by simp)]

theorem Kind.spells_keyName_of_word (hs : ∀ c ∈ s, c.isAlphanum = true)
    (h : s.all Char.isDigit = false) : Kind.keyName.Spells s := by
  obtain ⟨ds, rest, rfl, -, hds, hrest⟩ := Pattern.exists_run Char.isDigit s
  obtain ⟨hdsalnum, hralnum⟩ := List.forall_mem_append.1 hs
  cases rest with
  | nil =>
    rw [List.append_nil, List.all_eq_true.2 hds] at h
    cases h
  | cons c rest =>
    have hc : c.isAlpha = true :=
      (Bool.or_eq_true_iff.1 (hralnum c List.mem_cons_self)).resolve_right (by simp [hrest c rfl])
    refine ⟨ds ++ [c], rest, ⟨ds, c, hds, .inr (by simp [hc]), rfl⟩, fun d hd ↦ ?_, by simp⟩
    simp [isNameChar, isSegmentChar, isWordChar, hralnum d (List.mem_cons_of_mem c hd)]

theorem first?_word (hw : IsWord w) : first? w.toList = some (wordKind w, w.toList.length) := by
  obtain ⟨hne, halnum⟩ := hw
  have hmatch {k' : Kind} (hk' : k'.match? w.toList ≠ none) : keyword? w = some k' ∨
      k' = .keyName ∧ w.toList.all Char.isDigit = false ∨ k' = .integer := by
    obtain ⟨n, hn⟩ := Option.ne_none_iff_exists'.1 hk'
    exact (Kind.of_match?_word halnum hn).imp_left (keyword?_eq_some_iff halnum).2
  cases hkeyword : keyword? w with
  | some k =>
    obtain ⟨hk, hspells⟩ := (keyword?_eq_some_iff halnum).1 hkeyword
    have hkind : wordKind w = k := by rw [wordKind, hkeyword]; rfl
    rw [hkind]
    have hbefore : ∀ k' ∈ Kind.byPriority.takeWhile (· ≠ k),
        k' ≠ k ∧ k' ≠ .keyName ∧ k' ≠ .integer := by
      rcases keyword?_cases hkeyword with ⟨rfl, -⟩ | ⟨rfl, -⟩ | ⟨rfl, -⟩ <;> decide
    refine first?_eq_some (Kind.match?_eq_length hspells) fun k' hk' ↦ ?_
    by_contra hfits
    obtain ⟨hne', hname, hinteger⟩ := hbefore k' hk'
    rcases hmatch hfits with h | ⟨h, -⟩ | h
    · exact hne' (Option.some.inj (h.symm.trans hkeyword))
    · exact hname h
    · exact hinteger h
  | none =>
    cases hdigits : w.toList.all Char.isDigit with
    | false =>
      have hkind : wordKind w = .keyName := by simp [wordKind, hkeyword, hdigits]
      have hspells := Kind.spells_keyName_of_word halnum hdigits
      rw [hkind]
      refine first?_eq_some (Kind.match?_eq_length hspells) fun k' hk' ↦ ?_
      by_contra hfits
      rcases hmatch hfits with h | ⟨rfl, -⟩ | rfl
      · rw [hkeyword] at h
        cases h
      · exact absurd hk' (by decide)
      · exact absurd hk' (by decide)
    | true =>
      have hkind : wordKind w = .integer := by simp [wordKind, hkeyword, hdigits]
      have hspells : Kind.integer.Spells w.toList :=
        .inl ⟨by simpa using hne, List.all_eq_true.1 hdigits⟩
      rw [hkind]
      refine first?_eq_some (Kind.match?_eq_length hspells) fun k' hk' ↦ ?_
      by_contra hfits
      rcases hmatch hfits with h | ⟨-, h⟩ | rfl
      · rw [hkeyword] at h
        cases h
      · rw [hdigits] at h
        cases h
      · exact absurd hk' (by decide)

theorem integerValue_of_digits (h : ∀ c ∈ s, c.isDigit = true) :
    integerValue s = Text.decimalValue s := by
  unfold integerValue
  split
  · exact absurd (h '-' List.mem_cons_self) (by decide)
  · rfl

theorem keyword?_of_digits (h : w.toList.all Char.isDigit = true) : keyword? w = none := by
  have hword : ∀ c ∈ w.toList, c.isAlphanum = true := fun c hc ↦ by
    rw [Char.isAlphanum, List.all_eq_true.1 h c hc, Bool.or_true]
  cases hkeyword : keyword? w with
  | none => rfl
  | some k =>
    obtain ⟨hk, hspells⟩ := (keyword?_eq_some_iff hword).1 hkeyword
    obtain ⟨c, v, hcv, hc, -⟩ := Kind.shapes_of_spells hspells
    have hdigit : c.isDigit = true := List.all_eq_true.1 h c (by simp [hcv])
    rw [not_isDigit_of_isAlpha (Kind.isAlpha_of_starts hk hc)] at hdigit
    cases hdigit

theorem scan_of_first? (h : first? w.toList = some (k, w.toList.length)) :
    scan w = (ofRaw k w.toList).map ([·]) := by
  obtain ⟨c, v, hcv, hc, -⟩ := exists_cons_of_first? h
  rw [hcv] at h
  rw [scan, hcv, scanFrom, hc.not_isBlank, h]
  cases hraw : ofRaw k (c :: v) <;>
    simp [hraw, scanFrom, Except.map, bind, Except.bind, pure, Except.pure]

theorem ofRaw_word (w : String) : ofRaw (wordKind w) w.toList =
    if FitsInteger w then .ok ⟨wordKind w, w⟩ else .error (.numberOutOfRange w) := by
  cases hdigits : w.toList.all Char.isDigit with
  | true =>
    have hkind : wordKind w = .integer := by simp [wordKind, keyword?_of_digits hdigits, hdigits]
    have hrange : inRange (integerValue w.toList) = true ↔ FitsInteger w := by
      rw [integerValue_of_digits (List.all_eq_true.1 hdigits), FitsInteger, inRange]
      simp only [hdigits, forall_const, Bool.and_eq_true, decide_eq_true_eq]
      omega
    by_cases hfits : FitsInteger w <;> simp [ofRaw, hkind, hrange, hfits]
  | false =>
    have hfits : FitsInteger w := fun h ↦ by rw [hdigits] at h; cases h
    have hkind : wordKind w ≠ .integer ∧ wordKind w ≠ .real := by
      cases hkeyword : keyword? w with
      | none => simp [wordKind, hkeyword, hdigits]
      | some k =>
        have hword := isWord_of_keyword? hkeyword
        rw [wordKind, hkeyword, Option.getD_some]
        constructor <;>
        · rintro rfl
          cases hword
    rw [if_pos hfits]
    cases hk : wordKind w <;> simp_all [ofRaw]

theorem scan_word (hw : IsWord w) : scan w =
    if FitsInteger w then .ok [⟨wordKind w, w⟩] else .error (.numberOutOfRange w) := by
  rw [scan_of_first? (first?_word hw), ofRaw_word]
  split <;> rfl

end PdfSchema.Token
