import Mathlib.Data.List.Forall2
import Mathlib.Data.List.TakeWhile
import PdfSchema.Token.Pattern

namespace PdfSchema.Token

/-- `r` is the word `w` in some mix of cases, the long s counting as an `s`. -/
def InAnyCase (w r : List Char) : Prop :=
  List.Forall₂ (fun a b ↦ b.toLower = a ∨ a = 's' ∧ b = 'ſ') w r

def KeyStart (p : Char → Bool) (r : List Char) : Prop :=
  ∃ ds c, (∀ d ∈ ds, d.isDigit = true) ∧ (c = '*' ∨ p c = true) ∧ r = ds ++ [c]

def Segment (r : List Char) : Prop :=
  ∃ a b, KeyStart Char.isAlpha a ∧ (∀ d ∈ b, isSegmentChar d = true) ∧ r = a ++ (b ++ [':', ':'])

def Digits (r : List Char) : Prop := r ≠ [] ∧ ∀ d ∈ r, d.isDigit = true

def Numeral (r : List Char) : Prop := Digits r ∨ ∃ ds, Digits ds ∧ r = '-' :: ds

/-- The texts that spell a token of kind `k`. -/
def Kind.Spells (k : Kind) (r : List Char) : Prop :=
  match k with
  | functionHead => ∃ c w, c.isUpper = true ∧ w ≠ [] ∧ (∀ d ∈ w, d.isAlphanum = true) ∧
      r = 'f' :: 'n' :: ':' :: c :: (w ++ ['('])
  | trueWord => InAnyCase "true".toList r
  | falseWord => InAnyCase "false".toList r
  | quoted => ∃ w, w ≠ [] ∧ (∀ d ∈ w, d ≠ '\'') ∧ r = '\'' :: (w ++ ['\''])
  | modulo => r = "mod".toList
  | ellipsis => r = "...".toList
  | keyValue => ∃ w, r = '@' :: w ∧
      ((∃ ds, (∀ d ∈ ds, d.isDigit = true) ∧ w = ds ++ ['*']) ∨
        w ≠ [] ∧ ∀ d ∈ w, isSegmentChar d = true)
  | keyPath => ∃ ss, ss ≠ [] ∧ (∀ s ∈ ss, Segment s) ∧ r = ss.flatten
  | keyName => ∃ a b, KeyStart (fun c ↦ c.isAlpha || c = '_') a ∧
      (∀ d ∈ b, isNameChar d = true) ∧ r = a ++ b
  | pathSeparator => r = "::".toList
  | openBracket => r = ['[']
  | closeBracket => r = [']']
  | eq => r = "==".toList
  | ne => r = "!=".toList
  | ge => r = ">=".toList
  | le => r = "<=".toList
  | and => r = "&&".toList
  | or => r = "||".toList
  | gt => r = ['>']
  | lt => r = ['<']
  | real => ∃ a ds, Numeral a ∧ Digits ds ∧ r = a ++ '.' :: ds
  | integer => Numeral r
  | plus => r = ['+']
  | minus => r = ['-']
  | times => r = ['*']
  | divide => r = ['/']
  | openParen => r = ['(']
  | closeParen => r = [')']
  | comma => r = [',']

def Kind.isWord : Kind → Bool
  | trueWord | falseWord | modulo => true
  | _ => false

/-- Whether a token of kind `k` may end where the text `a` follows. -/
def Kind.EndsBefore (k : Kind) (a : List Char) : Prop :=
  k.isWord = true → ∀ c ∈ a.head?, isWordChar c = false

theorem isUpper_iff {c : Char} : c.isUpper = true ↔ 65 ≤ c.toNat ∧ c.toNat ≤ 90 :=
  decide_eq_true_iff

theorem isLower_iff {c : Char} : c.isLower = true ↔ 97 ≤ c.toNat ∧ c.toNat ≤ 122 :=
  Bool.and_eq_true_iff.trans (and_congr decide_eq_true_iff decide_eq_true_iff)

theorem isDigit_iff {c : Char} : c.isDigit = true ↔ 48 ≤ c.toNat ∧ c.toNat ≤ 57 :=
  Char.isDigit_iff_toNat

theorem isAlpha_iff {c : Char} : c.isAlpha = true ↔
    65 ≤ c.toNat ∧ c.toNat ≤ 90 ∨ 97 ≤ c.toNat ∧ c.toNat ≤ 122 :=
  Bool.or_eq_true_iff.trans (or_congr isUpper_iff isLower_iff)

theorem not_isDigit_of_isAlpha {c : Char} (h : c.isAlpha = true) : c.isDigit = false := by
  rw [isAlpha_iff] at h
  rw [← Bool.not_eq_true, isDigit_iff]
  omega

theorem Segment.ne_nil {r : List Char} (h : Segment r) : r ≠ [] := by
  obtain ⟨a, b, -, -, rfl⟩ := h
  simp

namespace Pattern

variable {p : Char → Bool} {s r a w : List Char} {n : ℕ}

theorem run_append (h : ∀ d ∈ r, p d = true) : run p (r ++ a) = r.length + run p a := by
  rw [run, List.takeWhile_append_of_pos h, List.length_append, run]

theorem run_eq_zero (h : ∀ c ∈ a.head?, p c = false) : run p a = 0 := by
  cases a with
  | nil => rfl
  | cons c a => simp [run, h c rfl]

theorem run_append_of_stop (hr : ∀ d ∈ r, p d = true) (ha : ∀ c ∈ a.head?, p c = false) :
    run p (r ++ a) = r.length := by
  rw [run_append hr, run_eq_zero ha, Nat.add_zero]

theorem exists_run (p : Char → Bool) (s : List Char) :
    ∃ r a, s = r ++ a ∧ run p s = r.length ∧ (∀ d ∈ r, p d = true) ∧
      ∀ c ∈ a.head?, p c = false := by
  refine ⟨s.takeWhile p, s.dropWhile p, List.takeWhile_append_dropWhile.symm, rfl,
    fun d hd ↦ List.mem_takeWhile_imp hd, fun c hc ↦ ?_⟩
  have h := List.head?_dropWhile_not p s
  rw [Option.mem_def.1 hc] at h
  simpa using h

/-- What a pattern takes is spelled as `L` says, and it takes at least what of the start of a text
is spelled so. -/
structure Recognizes (m : List Char → Option ℕ) (L : List Char → Prop) : Prop where
  spelled : ∀ {s n}, m s = some n → ∃ r a, s = r ++ a ∧ n = r.length ∧ L r
  found : ∀ {r} a, L r → ∃ n, r.length ≤ n ∧ m (r ++ a) = some n

theorem Recognizes.exists_append {m : List Char → Option ℕ} {L : List Char → Prop}
    (h : Recognizes m L) (hm : m s = some n) (a : List Char) :
    ∃ k, n ≤ k ∧ m (s ++ a) = some k := by
  obtain ⟨r, b, rfl, rfl, hr⟩ := h.spelled hm
  rw [List.append_assoc]
  exact h.found (b ++ a) hr

theorem Recognizes.of_append {m : List Char → Option ℕ} {L : List Char → Prop}
    (h : Recognizes m L) (hm : m (s ++ a) = some n) (hn : n ≤ s.length) : m s = some n := by
  obtain ⟨r, b, heq, rfl, hr⟩ := h.spelled hm
  obtain ⟨u, rfl⟩ : r <+: s := List.prefix_of_prefix_length_le ⟨b, heq.symm⟩ ⟨a, rfl⟩ hn
  obtain ⟨k, hk, hu⟩ := h.found u hr
  -- Nothing longer is taken before the cut, since it would be taken after it too.
  obtain ⟨j, hj, hua⟩ := h.exists_append hu a
  obtain rfl : r.length = j := Option.some.inj (hm.symm.trans hua)
  rwa [Nat.le_antisymm hk hj]

theorem recognizes_fixed (w : List Char) : Recognizes (fixed? w) (· = w) := by
  constructor
  case spelled =>
    intro s n h
    simp only [fixed?, List.isPrefixOf_iff_prefix, Option.ite_none_right_eq_some] at h
    obtain ⟨⟨a, rfl⟩, h⟩ := h
    exact ⟨w, a, rfl, (Option.some.inj h).symm, rfl⟩
  case found =>
    rintro r a rfl
    exact ⟨r.length, le_rfl, by simp [fixed?]⟩

theorem functionHead?_append (h : Kind.functionHead.Spells r) (a : List Char) :
    functionHead? (r ++ a) = some r.length := by
  obtain ⟨c, w, hc, hne, hw, rfl⟩ := h
  have hrun : run Char.isAlphanum (w ++ '(' :: a) = w.length :=
    run_append_of_stop hw (by simp)
  simp [functionHead?, hrun, hc, hne]

theorem recognizes_functionHead : Recognizes functionHead? Kind.functionHead.Spells := by
  constructor
  case spelled =>
    intro s n h
    unfold functionHead? at h
    split at h
    case h_1 c rest =>
      obtain ⟨w, a, rfl, hrun, hw, -⟩ := exists_run Char.isAlphanum rest
      simp only [hrun, List.drop_left, Option.ite_none_right_eq_some, Bool.and_eq_true,
        decide_eq_true_eq] at h
      obtain ⟨⟨⟨hc, hne⟩, ha⟩, h⟩ := h
      obtain ⟨a, rfl⟩ := List.head?_eq_some_iff.1 ha
      refine ⟨_, a, ?_, ?_, c, w, hc, ?_, hw, rfl⟩
      · simp
      · rw [← Option.some.inj h]
        simp
      · exact List.length_pos_iff.1 (Nat.pos_of_ne_zero hne)
    case h_2 => cases h
  case found => exact fun a h ↦ ⟨_, le_rfl, functionHead?_append h a⟩

theorem quoted?_append (h : Kind.quoted.Spells r) (a : List Char) :
    quoted? (r ++ a) = some r.length := by
  obtain ⟨w, hne, hw, rfl⟩ := h
  have hrun : run (· ≠ '\'') (w ++ '\'' :: a) = w.length :=
    run_append_of_stop (by simpa using hw) (by simp)
  simp only [quoted?, List.cons_append, List.append_assoc, List.nil_append, hrun]
  simp [hne]

theorem recognizes_quoted : Recognizes quoted? Kind.quoted.Spells := by
  constructor
  case spelled =>
    intro s n h
    unfold quoted? at h
    split at h
    case h_1 rest =>
      obtain ⟨w, a, rfl, hrun, hw, -⟩ := exists_run (· ≠ '\'') rest
      simp only [hrun, List.drop_left, Option.ite_none_right_eq_some, Bool.and_eq_true,
        decide_eq_true_eq] at h
      obtain ⟨⟨hne, ha⟩, h⟩ := h
      obtain ⟨a, rfl⟩ := List.head?_eq_some_iff.1 ha
      refine ⟨_, a, ?_, ?_, w, ?_, ?_, rfl⟩
      · simp
      · rw [← Option.some.inj h]
        simp
      · exact List.length_pos_iff.1 (Nat.pos_of_ne_zero hne)
      · simpa using hw
    case h_2 => cases h
  case found => exact fun a h ↦ ⟨_, le_rfl, quoted?_append h a⟩

theorem run1?_eq_some_iff : run1? p s = some n ↔ n ≠ 0 ∧ run p s = n := by
  rw [run1?, Option.ite_none_left_eq_some, Option.some_inj]
  constructor
  · rintro ⟨h, rfl⟩
    exact ⟨h, rfl⟩
  · rintro ⟨h, rfl⟩
    exact ⟨h, rfl⟩

theorem recognizes_run1 (p : Char → Bool) :
    Recognizes (run1? p) (fun r ↦ r ≠ [] ∧ ∀ d ∈ r, p d = true) := by
  constructor
  case spelled =>
    intro s n h
    obtain ⟨hn, hrun⟩ := run1?_eq_some_iff.1 h
    obtain ⟨r, a, rfl, hr, hp, -⟩ := exists_run p s
    exact ⟨r, a, rfl, hrun ▸ hr, List.length_pos_iff.1 (by omega), hp⟩
  case found =>
    rintro r a ⟨hne, hr⟩
    have hpos := List.length_pos_iff.2 hne
    have hrun := run_append (a := a) hr
    exact ⟨run p (r ++ a), by omega, run1?_eq_some_iff.2 ⟨by omega, rfl⟩⟩

theorem exists_of_keyStart? (h : keyStart? p s = some n) :
    ∃ r a, s = r ++ a ∧ n = r.length ∧ KeyStart p r := by
  obtain ⟨ds, a, rfl, hrun, hds, -⟩ := exists_run Char.isDigit s
  simp only [keyStart?, hrun, List.drop_left] at h
  cases a with
  | nil => cases h
  | cons c a =>
    simp only [List.head?_cons, Option.ite_none_right_eq_some, Bool.or_eq_true,
      decide_eq_true_eq] at h
    obtain ⟨hc, h⟩ := h
    refine ⟨ds ++ [c], a, by simp, ?_, ds, c, hds, hc, rfl⟩
    rw [← Option.some.inj h]
    simp

theorem keyStart?_append (hp : ∀ c, p c = true → c.isDigit = false) (h : KeyStart p r)
    (a : List Char) : keyStart? p (r ++ a) = some r.length := by
  obtain ⟨ds, c, hds, hc, rfl⟩ := h
  have hcd : c.isDigit = false := by
    rcases hc with rfl | hc
    · rfl
    · exact hp c hc
  have hrun : run Char.isDigit (ds ++ c :: a) = ds.length :=
    run_append_of_stop hds (by simpa using hcd)
  simp [keyStart?, hrun, hc]

theorem not_isDigit_of_startsName (c : Char) (h : (c.isAlpha || c = '_') = true) :
    c.isDigit = false := by
  rcases Bool.or_eq_true_iff.1 h with h | h
  · exact not_isDigit_of_isAlpha h
  · rw [of_decide_eq_true h]
    rfl

theorem recognizes_keyName : Recognizes keyName? Kind.keyName.Spells := by
  constructor
  case spelled =>
    intro s n h
    obtain ⟨k, hk, rfl⟩ := Option.map_eq_some_iff.1 h
    obtain ⟨r, a, rfl, rfl, hr⟩ := exists_of_keyStart? hk
    obtain ⟨b, a, rfl, hrun, hb, -⟩ := exists_run isNameChar a
    rw [List.drop_left, hrun]
    exact ⟨r ++ b, a, by simp, by simp, r, b, hr, hb, rfl⟩
  case found =>
    rintro r t ⟨a, b, ha, hb, rfl⟩
    have hrun := run_append (a := t) hb
    have hk := keyStart?_append not_isDigit_of_startsName ha (b ++ t)
    refine ⟨a.length + run isNameChar (b ++ t), ?_, ?_⟩
    · rw [List.length_append]
      omega
    · rw [keyName?, List.append_assoc, hk, Option.map_some, List.drop_left]

theorem recognizes_keyValue : Recognizes keyValue? Kind.keyValue.Spells := by
  constructor
  case spelled =>
    intro s n h
    unfold keyValue? at h
    split at h
    case h_1 rest =>
      dsimp only at h
      split at h
      case isTrue hstar =>
        obtain ⟨ds, a, rfl, hrun, hds, -⟩ := exists_run Char.isDigit rest
        simp only [hrun, List.drop_left] at h hstar
        obtain ⟨a, rfl⟩ := List.head?_eq_some_iff.1 hstar
        refine ⟨'@' :: (ds ++ ['*']), a, by simp, ?_, _, rfl, .inl ⟨ds, hds, rfl⟩⟩
        rw [← Option.some.inj h]
        simp
      case isFalse =>
        obtain ⟨k, hk, rfl⟩ := Option.map_eq_some_iff.1 h
        obtain ⟨w, a, rfl, rfl, hw⟩ := (recognizes_run1 isSegmentChar).spelled hk
        exact ⟨'@' :: w, a, rfl, rfl, w, rfl, .inr hw⟩
    case h_2 => cases h
  case found =>
    rintro r t ⟨w, rfl, h⟩
    rcases h with ⟨ds, hds, rfl⟩ | hw
    · have hrun : run Char.isDigit (ds ++ '*' :: t) = ds.length :=
        run_append_of_stop hds (by simp)
      refine ⟨ds.length + 2, by simp, ?_⟩
      simp [keyValue?, hrun]
    · obtain ⟨k, hk, hrun⟩ := (recognizes_run1 isSegmentChar).found t hw
      by_cases hstar : ((w ++ t).drop (run Char.isDigit (w ++ t))).head? = some '*'
      · -- The `*` after the digits is no character of `w`, so all of `w` is digits.
        refine ⟨run Char.isDigit (w ++ t) + 2, ?_, by simp [keyValue?, hstar]⟩
        have hle : w.length ≤ run Char.isDigit (w ++ t) := by
          by_contra hlt
          rw [List.head?_drop, List.getElem?_append_left (by omega)] at hstar
          have := hw.2 '*' (List.mem_of_getElem? hstar)
          revert this
          decide
        rw [List.length_cons]
        omega
      · refine ⟨k + 1, by simpa using hk, ?_⟩
        simp only [keyValue?, List.cons_append, if_neg hstar, hrun, Option.map_some]

theorem segment?_append (h : Segment r) (t : List Char) : segment? (r ++ t) = some r.length := by
  obtain ⟨a, b, ha, hb, rfl⟩ := h
  have hk := keyStart?_append (fun c ↦ not_isDigit_of_isAlpha) ha (b ++ ':' :: ':' :: t)
  have hrun : run isSegmentChar (b ++ ':' :: ':' :: t) = b.length :=
    run_append_of_stop hb (by simp; decide)
  simp [segment?, hk, hrun, fixed?, Nat.add_assoc]

theorem recognizes_segment : Recognizes segment? Segment := by
  constructor
  case spelled =>
    intro s n h
    simp only [segment?, Option.bind_eq_bind, Option.bind_eq_some_iff] at h
    obtain ⟨k, hk, m, hm, h⟩ := h
    obtain ⟨r, a, rfl, rfl, hr⟩ := exists_of_keyStart? hk
    obtain ⟨b, a, rfl, hrun, hb, -⟩ := exists_run isSegmentChar a
    rw [List.drop_left, hrun, ← List.length_append, ← List.append_assoc, List.drop_left] at hm
    obtain ⟨c, a, rfl, rfl, rfl⟩ := (recognizes_fixed _).spelled hm
    refine ⟨r ++ (b ++ [':', ':']), a, by simp, ?_, r, b, hr, hb, rfl⟩
    have hn := Option.some.inj h
    rw [List.drop_left, hrun] at hn
    rw [← hn]
    simp [Nat.add_assoc]
  case found => exact fun a h ↦ ⟨_, le_rfl, segment?_append h a⟩

theorem exists_segments (s : List Char) :
    ∃ (ss : List (List Char)) (a : List Char), s = ss.flatten ++ a ∧
      segments s = ss.flatten.length ∧ ∀ r ∈ ss, Segment r := by
  fun_induction segments s with
  | case1 s n h ih =>
    obtain ⟨r, a, rfl, rfl, hr⟩ := recognizes_segment.spelled h
    rw [List.drop_left] at ih ⊢
    obtain ⟨ss, b, rfl, hlen, hss⟩ := ih
    refine ⟨r :: ss, b, by simp, by simp [hlen], ?_⟩
    simpa using ⟨hr, hss⟩
  | case2 s h => exact ⟨[], s, rfl, rfl, by simp⟩

theorem segments_append (h : Segment r) (t : List Char) :
    segments (r ++ t) = r.length + segments t := by
  have hr := segment?_append h t
  rw [segments]
  split
  case h_1 n hn =>
    obtain rfl : r.length = n := Option.some.inj (hr.symm.trans hn)
    rw [List.drop_left]
  case h_2 hn => exact absurd (hr.symm.trans hn) (by simp)

theorem le_segments {ss : List (List Char)} (h : ∀ s ∈ ss, Segment s) (t : List Char) :
    ss.flatten.length ≤ segments (ss.flatten ++ t) := by
  induction ss with
  | nil => simp
  | cons r ss ih =>
    rw [List.flatten_cons, List.append_assoc, segments_append (h r List.mem_cons_self),
      List.length_append]
    have := ih (fun s hs ↦ h s (List.mem_cons_of_mem _ hs))
    omega

theorem recognizes_keyPath : Recognizes keyPath? Kind.keyPath.Spells := by
  constructor
  case spelled =>
    intro s n h
    obtain ⟨hne, h⟩ := Option.ite_none_left_eq_some.1 h
    obtain ⟨ss, a, hs, hlen, hss⟩ := exists_segments s
    refine ⟨ss.flatten, a, hs, (Option.some.inj h).symm.trans hlen, ss, ?_, hss, rfl⟩
    rintro rfl
    exact hne hlen
  case found =>
    rintro r t ⟨ss, hne, hss, rfl⟩
    have hle := le_segments hss t
    obtain ⟨r, ss, rfl⟩ := List.exists_cons_of_ne_nil hne
    have hpos := List.length_pos_iff.2 (hss r List.mem_cons_self).ne_nil
    have hlen : r.length ≤ (r :: ss).flatten.length := by simp
    exact ⟨_, hle, if_neg (by omega)⟩

theorem run1?_append_of_stop (hne : r ≠ []) (hr : ∀ d ∈ r, p d = true)
    (ha : ∀ c ∈ a.head?, p c = false) : run1? p (r ++ a) = some r.length :=
  run1?_eq_some_iff.2 ⟨Nat.ne_of_gt (List.length_pos_iff.2 hne), run_append_of_stop hr ha⟩

theorem integer?_digits (h : Digits r) : integer? (r ++ a) = run1? Char.isDigit (r ++ a) := by
  obtain ⟨c, r, rfl⟩ := List.exists_cons_of_ne_nil h.1
  rw [List.cons_append, integer?]
  rintro ds heq
  obtain rfl : c = '-' := (List.cons.inj heq).1
  exact absurd (h.2 '-' List.mem_cons_self) (by decide)

theorem recognizes_integer : Recognizes integer? Numeral := by
  constructor
  case spelled =>
    intro s n h
    unfold integer? at h
    split at h
    case h_1 ds =>
      obtain ⟨k, hk, rfl⟩ := Option.map_eq_some_iff.1 h
      obtain ⟨r, a, rfl, rfl, hr⟩ := (recognizes_run1 _).spelled hk
      exact ⟨'-' :: r, a, rfl, rfl, .inr ⟨r, hr, rfl⟩⟩
    case h_2 =>
      obtain ⟨r, a, hs, hn, hr⟩ := (recognizes_run1 _).spelled h
      exact ⟨r, a, hs, hn, .inl hr⟩
  case found =>
    rintro r t (hr | ⟨ds, hds, rfl⟩)
    · obtain ⟨n, hn, h⟩ := (recognizes_run1 _).found t hr
      exact ⟨n, hn, (integer?_digits hr).trans h⟩
    · obtain ⟨n, hn, h⟩ := (recognizes_run1 _).found t hds
      exact ⟨n + 1, by simpa using hn, by simp [integer?, h]⟩

theorem integer?_append (h : Numeral r) (ha : ∀ c ∈ a.head?, c.isDigit = false) :
    integer? (r ++ a) = some r.length := by
  rcases h with hr | ⟨ds, hds, rfl⟩
  · rw [integer?_digits hr, run1?_append_of_stop hr.1 hr.2 ha]
  · rw [List.cons_append, integer?, run1?_append_of_stop hds.1 hds.2 ha, Option.map_some,
      List.length_cons]

theorem recognizes_real : Recognizes real? Kind.real.Spells := by
  constructor
  case spelled =>
    intro s n h
    simp only [real?, Option.bind_eq_bind, Option.bind_eq_some_iff] at h
    obtain ⟨k, hk, h⟩ := h
    obtain ⟨r, a, rfl, rfl, hr⟩ := recognizes_integer.spelled hk
    rw [List.drop_left] at h
    split at h
    case h_1 ds =>
      obtain ⟨m, hm, rfl⟩ := Option.map_eq_some_iff.1 h
      obtain ⟨ds, a, rfl, rfl, hds⟩ := (recognizes_run1 _).spelled hm
      exact ⟨r ++ '.' :: ds, a, by simp, by simp; omega, r, ds, hr, hds, rfl⟩
    case h_2 => cases h
  case found =>
    rintro r t ⟨i, ds, hi, hds, rfl⟩
    obtain ⟨n, hn, h⟩ := (recognizes_run1 _).found t hds
    refine ⟨i.length + 1 + n, by simp; omega, ?_⟩
    have hwhole := integer?_append (a := '.' :: (ds ++ t)) hi (by simp)
    simp [real?, hwhole, h]

theorem any_head?_eq_false : a.head?.any p = false ↔ ∀ c ∈ a.head?, p c = false := by
  simp [Option.any_eq_false]

theorem word?_eq_some_iff : word? w s = some n ↔
    ∃ a, s = w ++ a ∧ n = w.length ∧ ∀ c ∈ a.head?, isWordChar c = false := by
  rw [word?, Option.ite_none_right_eq_some, Bool.and_eq_true, List.isPrefixOf_iff_prefix,
    Bool.not_eq_true', any_head?_eq_false]
  constructor
  · rintro ⟨⟨⟨a, rfl⟩, ha⟩, h⟩
    rw [List.drop_left] at ha
    exact ⟨a, rfl, (Option.some.inj h).symm, ha⟩
  · rintro ⟨a, rfl, rfl, ha⟩
    rw [List.drop_left]
    exact ⟨⟨⟨a, rfl⟩, ha⟩, rfl⟩

theorem anyCase?_eq_some_iff : anyCase? w s = some n ↔
    ∃ r a, s = r ++ a ∧ n = r.length ∧ InAnyCase w r ∧ ∀ c ∈ a.head?, isWordChar c = false := by
  have hzip (r a : List Char) (h : w.length = r.length) : w.zip (r ++ a) = w.zip r := by
    have hz : List.zip (w ++ []) (r ++ a) = _ := List.zip_append h
    simpa using hz
  simp only [anyCase?, Option.ite_none_right_eq_some, Option.ite_none_left_eq_some,
    Bool.and_eq_true, List.all_eq_true, Bool.not_eq_true, any_head?_eq_false, decide_eq_true_eq,
    Bool.or_eq_true, InAnyCase, List.forall₂_iff_zip]
  constructor
  · rintro ⟨⟨hle, hsame⟩, ha, h⟩
    have hlen : w.length = (s.take w.length).length := by
      rw [List.length_take]
      omega
    have hs := (List.take_append_drop w.length s).symm
    refine ⟨s.take w.length, s.drop w.length, hs, ?_, ⟨hlen, fun hx ↦ ?_⟩, ha⟩
    · rw [← hlen, ← Option.some.inj h]
    · refine hsame (_, _) ?_
      rw [hs, hzip _ _ hlen]
      exact hx
  · rintro ⟨r, a, rfl, rfl, ⟨hlen, hsame⟩, ha⟩
    rw [hzip r a hlen, hlen, List.drop_left]
    exact ⟨⟨by simp, fun x hx ↦ hsame hx⟩, ha, rfl⟩

end Pattern

namespace Kind

open Pattern

variable {k : Kind} {s r a : List Char} {n : ℕ}

/-- The pattern of a kind that is no word takes the longest text that spells it. -/
theorem recognizes_match? (h : k.isWord = false) : Recognizes k.match? k.Spells := by
  cases k with
  | trueWord | falseWord | modulo => cases h
  | functionHead => exact recognizes_functionHead
  | quoted => exact recognizes_quoted
  | keyValue => exact recognizes_keyValue
  | keyPath => exact recognizes_keyPath
  | keyName => exact recognizes_keyName
  | real => exact recognizes_real
  | integer => exact recognizes_integer
  | _ => exact recognizes_fixed _

theorem match?_eq_some_iff_of_isWord (h : k.isWord = true) : k.match? s = some n ↔
    ∃ r a, s = r ++ a ∧ n = r.length ∧ k.Spells r ∧ ∀ c ∈ a.head?, isWordChar c = false := by
  cases k with
  | trueWord | falseWord => exact anyCase?_eq_some_iff
  | modulo =>
    refine word?_eq_some_iff.trans ⟨?_, ?_⟩
    · rintro ⟨a, rfl, rfl, ha⟩
      exact ⟨_, a, rfl, rfl, rfl, ha⟩
    · rintro ⟨r, a, rfl, rfl, rfl, ha⟩
      exact ⟨a, rfl, rfl, ha⟩
  | _ => cases h

theorem spells_of_match? (h : k.match? s = some n) :
    ∃ r a, s = r ++ a ∧ n = r.length ∧ k.Spells r ∧ k.EndsBefore a := by
  by_cases hw : k.isWord = true
  · obtain ⟨r, a, hs, hn, hr, ha⟩ := (match?_eq_some_iff_of_isWord hw).1 h
    exact ⟨r, a, hs, hn, hr, fun _ ↦ ha⟩
  · obtain ⟨r, a, hs, hn, hr⟩ := (recognizes_match? (by simpa using hw)).spelled h
    exact ⟨r, a, hs, hn, hr, fun h ↦ absurd h hw⟩

theorem match?_of_spells (hr : k.Spells r) (ha : k.EndsBefore a) :
    ∃ n, r.length ≤ n ∧ k.match? (r ++ a) = some n := by
  by_cases hw : k.isWord = true
  · exact ⟨r.length, le_rfl,
      (match?_eq_some_iff_of_isWord hw).2 ⟨r, a, rfl, rfl, hr, ha hw⟩⟩
  · exact (recognizes_match? (by simpa using hw)).found a hr

end Kind

end PdfSchema.Token
