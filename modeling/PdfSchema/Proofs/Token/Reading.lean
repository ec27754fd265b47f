import PdfSchema.Proofs.Token.Context
import PdfSchema.Token.Scan

namespace PdfSchema

theorem Text.byteLength_toList (s : String) : byteLength s.toList = s.utf8ByteSize := by
  have h (l : List Char) (n : ℕ) :
      l.foldl (fun n c ↦ n + c.utf8Size) n = n + (String.ofList l).utf8ByteSize := by
    induction l generalizing n with
    | nil => rfl
    | cons c l ih =>
      rw [List.foldl_cons, ih, String.ofList_cons, String.utf8ByteSize_append,
        String.utf8ByteSize_singleton]
      omega
  rw [byteLength, h, String.ofList_toList, Nat.zero_add]

theorem Text.byteLength_append (s t : List Char) :
    byteLength (s ++ t) = byteLength s + byteLength t := by
  have h (s : List Char) : byteLength s = (String.ofList s).utf8ByteSize := by
    rw [← byteLength_toList, String.toList_ofList]
  rw [h, h, h, String.ofList_append, String.utf8ByteSize_append]

namespace Token

/-- The text `p`, where `a` follows it, is read as the tokens `ts`. -/
inductive Reads : List Char → List Token → List Char → Prop
  | nil (a : List Char) : Reads [] [] a
  | blank {c : Char} {p a : List Char} {ts : List Token} (hc : Text.isBlank c = true)
      (h : Reads p ts a) : Reads (c :: p) ts a
  | token {t : Token} {p a : List Char} {ts : List Token}
      (hf : first? (t.raw.toList ++ (p ++ a)) = some (t.kind, t.raw.toList.length))
      (ht : ofRaw t.kind t.raw.toList = .ok t) (h : Reads p ts a) :
      Reads (t.raw.toList ++ p) (t :: ts) a

/-- The token is all that is read of its own text. -/
structure ReadAlone (t : Token) : Prop where
  first : first? t.raw.toList = some (t.kind, t.raw.toList.length)
  ofRaw : ofRaw t.kind t.raw.toList = .ok t

variable {k : Kind} {p q r s a e w : List Char} {ts us : List Token} {t : Token} {n o : ℕ}

theorem ofRaw_cases (k : Kind) (s : List Char) :
    ofRaw k s = .ok ⟨k, String.ofList s⟩ ∨
      ofRaw k s = .error (.numberOutOfRange (String.ofList s)) := by
  have h (b : Bool) (x y : Except ScanError Token) :
      (if b then x else y) = y ∨ (if b then x else y) = x := by
    cases b
    · exact .inl rfl
    · exact .inr rfl
  exact h _ _ _

theorem exists_cons_of_first? (h : first? s = some (k, n)) :
    ∃ c s', s = c :: s' ∧ IsVisible c ∧ 0 < n := by
  obtain ⟨r, a, rfl, rfl, hr, -⟩ := Kind.spells_of_match? (match?_of_first? h)
  obtain ⟨c, w, rfl, hc, -⟩ := Kind.shapes_of_spells hr
  exact ⟨c, w ++ a, rfl, Kind.isVisible_of_starts hc, Nat.succ_pos _⟩

theorem exists_cons_of_first?_append (h : first? (r ++ s) = some (k, r.length)) :
    ∃ c w, r = c :: w ∧ IsVisible c := by
  obtain ⟨c, s', hs, hc, hn⟩ := exists_cons_of_first? h
  obtain ⟨d, w, rfl⟩ := List.exists_cons_of_ne_nil (List.length_pos_iff.1 hn)
  exact ⟨d, w, rfl, (List.cons.inj hs).1 ▸ hc⟩

theorem scanFrom_blank {c : Char} (hc : Text.isBlank c = true) :
    scanFrom o (c :: s) = scanFrom (o + c.utf8Size) s := by
  rw [scanFrom, if_pos hc]

theorem scanFrom_token (hf : first? (t.raw.toList ++ s) = some (t.kind, t.raw.toList.length))
    (ht : ofRaw t.kind t.raw.toList = .ok t) : scanFrom o (t.raw.toList ++ s) =
      (scanFrom (o + Text.byteLength t.raw.toList) s).map (t :: ·) := by
  obtain ⟨c, s', hs, hc, hn⟩ := exists_cons_of_first? hf
  have htake : (c :: s').take t.raw.toList.length = t.raw.toList := by rw [← hs, List.take_left]
  have hdrop : s'.drop (t.raw.toList.length - 1) = s := by
    rw [← List.drop_succ_cons (a := c), ← hs, Nat.sub_add_cancel hn, List.drop_left]
  rw [hs] at hf ⊢
  rw [scanFrom, hc.not_isBlank, hf]
  simp only [Bool.false_eq_true, if_false, htake, hdrop, ht]
  cases scanFrom (o + Text.byteLength t.raw.toList) s <;> rfl

theorem scanFrom_append (h : Reads p ts a) (o : ℕ) :
    scanFrom o (p ++ a) = (scanFrom (o + Text.byteLength p) a).map (ts ++ ·) := by
  induction h generalizing o with
  | nil a => cases h : scanFrom o a <;> simp [Text.byteLength, h, Except.map]
  | @blank c p a ts hc _ ih =>
    have hlen : Text.byteLength (c :: p) = c.utf8Size + Text.byteLength p := by
      rw [← List.singleton_append, Text.byteLength_append]
      simp [Text.byteLength]
    rw [List.cons_append, scanFrom_blank hc, ih, hlen, Nat.add_assoc]
  | @token t p a ts hf ht _ ih =>
    rw [List.append_assoc, scanFrom_token hf ht, ih, Text.byteLength_append, ← Nat.add_assoc]
    cases scanFrom (o + Text.byteLength t.raw.toList + Text.byteLength p) a <;> rfl

/-- No token starts `s`, nor is it at its end or starts with a blank. -/
structure Stuck (s : List Char) : Prop where
  ne_nil : s ≠ []
  not_isBlank : ∀ c ∈ s.head?, Text.isBlank c = false
  first? : first? s = none

def OutOfRange (s : List Char) : Prop :=
  ∃ k n, first? s = some (k, n) ∧
    ofRaw k (s.take n) = .error (.numberOutOfRange (String.ofList (s.take n)))

theorem scanFrom_stuck (h : Stuck s) :
    scanFrom o s = .error (.unrecognized o (String.ofList s)) := by
  obtain ⟨c, s, rfl⟩ := List.exists_cons_of_ne_nil h.ne_nil
  rw [scanFrom, h.not_isBlank c rfl, h.first?]
  rfl

theorem scanFrom_outOfRange (h : OutOfRange s) :
    ∃ raw, ∀ o, scanFrom o s = .error (.numberOutOfRange raw) := by
  obtain ⟨k, n, hf, hr⟩ := h
  obtain ⟨c, s, rfl, hc, -⟩ := exists_cons_of_first? hf
  refine ⟨String.ofList ((c :: s).take n), fun o ↦ ?_⟩
  rw [scanFrom, hc.not_isBlank, hf]
  simp only [Bool.false_eq_true, if_false, hr]
  rfl

theorem Reads.cons_of_first? (h : Reads p ts a) (hf : first? (r ++ (p ++ a)) = some (k, r.length))
    (hr : ofRaw k r = .ok ⟨k, String.ofList r⟩) :
    Reads (r ++ p) (⟨k, String.ofList r⟩ :: ts) a := by
  have hcons := @Reads.token ⟨k, String.ofList r⟩ p a ts
  simp only [String.toList_ofList] at hcons
  exact hcons hf hr h

/-- Every text is read up to its end, or up to where no token or one out of range starts. -/
theorem exists_reads (s : List Char) :
    ∃ p ts a, s = p ++ a ∧ Reads p ts a ∧ (a = [] ∨ Stuck a ∨ OutOfRange a) := by
  induction hlen : s.length using Nat.strong_induction_on generalizing s with
  | _ len ih =>
    subst hlen
    cases s with
    | nil => exact ⟨[], [], [], rfl, .nil [], .inl rfl⟩
    | cons c s =>
      by_cases hc : Text.isBlank c = true
      · obtain ⟨p, ts, a, rfl, hp, ha⟩ := ih _ (Nat.lt_succ_self _) s rfl
        exact ⟨c :: p, ts, a, rfl, hp.blank hc, ha⟩
      cases hf : first? (c :: s) with
      | none =>
        have hstuck : Stuck (c :: s) := ⟨List.cons_ne_nil _ _, by simpa using hc, hf⟩
        exact ⟨[], [], c :: s, rfl, .nil _, .inr (.inl hstuck)⟩
      | some x =>
        obtain ⟨k, n⟩ := x
        rcases ofRaw_cases k ((c :: s).take n) with hr | hr
        · obtain ⟨r, b, hs, rfl, hr', -⟩ := Kind.spells_of_match? (match?_of_first? hf)
          obtain ⟨d, w, rfl, -⟩ := Kind.shapes_of_spells hr'
          rw [hs] at hf hr ⊢
          rw [List.take_left] at hr
          have hlt : b.length < (d :: w ++ b).length := by
            rw [List.length_append, List.length_cons]
            omega
          obtain ⟨p, ts, a, rfl, hp, ha⟩ := ih b.length (hs ▸ hlt) b rfl
          exact ⟨_, _, a, (List.append_assoc _ _ _).symm, hp.cons_of_first? hf hr, ha⟩
        · exact ⟨[], [], c :: s, rfl, .nil _, .inr (.inr ⟨k, n, hf, hr⟩)⟩

theorem scanFrom_eq_ok (h : scanFrom o s = .ok ts) : Reads s ts [] := by
  obtain ⟨p, us, a, rfl, hp, rfl | ha | ha⟩ := exists_reads s
  · rw [scanFrom_append hp, scanFrom] at h
    obtain rfl : us = ts := by simpa [Except.map] using h
    rwa [List.append_nil]
  · rw [scanFrom_append hp, scanFrom_stuck ha] at h
    cases h
  · obtain ⟨raw, hraw⟩ := scanFrom_outOfRange ha
    rw [scanFrom_append hp, hraw] at h
    cases h

theorem scanFrom_eq_unrecognized {rest : String} (h : scanFrom o s = .error (.unrecognized n rest)) :
    ∃ p ts, s = p ++ rest.toList ∧ Reads p ts rest.toList ∧ Stuck rest.toList ∧
      n = o + Text.byteLength p := by
  obtain ⟨p, us, a, rfl, hp, rfl | ha | ha⟩ := exists_reads s
  · rw [scanFrom_append hp, scanFrom] at h
    cases h
  · rw [scanFrom_append hp, scanFrom_stuck ha] at h
    cases h
    rw [String.toList_ofList]
    exact ⟨p, us, rfl, hp, ha, rfl⟩
  · obtain ⟨raw, hraw⟩ := scanFrom_outOfRange ha
    rw [scanFrom_append hp, hraw] at h
    cases h

theorem scan_eq_ok_iff {s : String} : scan s = .ok ts ↔ Reads s.toList ts [] := by
  refine ⟨scanFrom_eq_ok, fun h ↦ ?_⟩
  have hscan := scanFrom_append h 0
  rw [List.append_nil, scanFrom] at hscan
  rw [scan, hscan]
  simp [Except.map]

namespace Reads

theorem blanks (h : ∀ c ∈ w, Text.isBlank c = true) : Reads w [] a := by
  induction w with
  | nil => exact .nil a
  | cons c w ih =>
    exact .blank (h c List.mem_cons_self) (ih fun d hd ↦ h d (List.mem_cons_of_mem _ hd))

theorem append (h : Reads p ts e) (he : e = q ++ a) (hq : Reads q us a) :
    Reads (p ++ q) (ts ++ us) a := by
  induction h with
  | nil => exact hq
  | blank hc _ ih => exact .blank hc (ih he)
  | token hf ht _ ih =>
    rw [List.append_assoc]
    refine .token ?_ ht (ih he)
    rw [List.append_assoc, ← he]
    exact hf

/-- What is read before a separator does not depend on it. -/
theorem append_separator (h : Reads p ts a) (he : ∀ c ∈ e.head?, IsSeparator c) :
    Reads p ts (a ++ e) := by
  induction h with
  | nil => exact .nil _
  | blank hc _ ih => exact .blank hc ih
  | token hf ht _ ih =>
    refine .token ?_ ht ih
    simpa using first?_append_of_isSeparator hf he

theorem head?_ne (h : Reads p ts a) : p.head? ≠ some 'ſ' := by
  cases h with
  | nil => simp
  | blank hc _ =>
    simp only [List.head?_cons, ne_eq, Option.some_inj]
    rintro rfl
    revert hc
    decide
  | token hf ht _ =>
    obtain ⟨c, w, hr, hc⟩ := exists_cons_of_first?_append hf
    rw [hr, List.cons_append, List.head?_cons, ne_eq, Option.some_inj]
    rintro rfl
    exact absurd hc.2 (by decide)

theorem cut (h : Reads p ts a) : Reads p ts [] := by
  induction h with
  | nil => exact .nil _
  | blank hc _ ih => exact .blank hc ih
  | @token t p a ts hf ht hp ih =>
    refine .token ?_ ht ih
    rw [List.append_nil]
    rw [← List.append_assoc] at hf
    refine first?_of_append hf (by simp) ?_
    rw [List.drop_left]
    exact hp.head?_ne

theorem exists_first? (h : Reads p ts a) (ht : t ∈ ts) :
    ∃ b, first? (t.raw.toList ++ b) = some (t.kind, t.raw.toList.length) ∧
      ofRaw t.kind t.raw.toList = .ok t := by
  induction h with
  | nil => cases ht
  | blank _ _ ih => exact ih ht
  | @token u p a ts hf hu _ ih =>
    rcases List.mem_cons.1 ht with rfl | ht
    · exact ⟨p ++ a, hf, hu⟩
    · exact ih ht

theorem raw_ne (h : Reads p ts a) (ht : t ∈ ts) : t.raw ≠ "" := by
  obtain ⟨b, hf, -⟩ := h.exists_first? ht
  obtain ⟨c, w, hr, -⟩ := exists_cons_of_first?_append hf
  intro hraw
  rw [hraw] at hr
  cases hr

theorem spells (h : Reads p ts a) (ht : t ∈ ts) : t.kind.Spells t.raw.toList := by
  obtain ⟨b, hf, -⟩ := h.exists_first? ht
  obtain ⟨r, u, hs, hn, hr, -⟩ := Kind.spells_of_match? (match?_of_first? hf)
  rwa [(List.append_inj hs hn).1]

theorem readAlone (h : Reads p ts a) (ht : t ∈ ts) : t.ReadAlone := by
  obtain ⟨b, hf, hraw⟩ := h.exists_first? ht
  exact ⟨first?_of_append hf le_rfl (by simp), hraw⟩

theorem of_mem (h : Reads p ts a) (ht : t ∈ ts) : Reads t.raw.toList [t] [] := by
  obtain ⟨hf, hraw⟩ := h.readAlone ht
  rw [← List.append_nil t.raw.toList]
  refine .token ?_ hraw (.nil [])
  rwa [List.append_nil, List.append_nil]

end Reads

def IsBlankText (w : String) : Prop := ∀ c ∈ w.toList, Text.isBlank c = true

instance (w : String) : Decidable (IsBlankText w) := decidable_of_iff _ List.all_eq_true

/-- The texts of some tokens with `gaps` between them: `r₁ w₁ r₂ w₂ … rₙ`. -/
def spaced : List Token → List String → String
  | [], _ => ""
  | t :: ts, [] => t.raw ++ spaced ts []
  | t :: ts, w :: gaps => t.raw ++ w ++ spaced ts gaps

theorem Reads.eq_spaced (h : Reads p ts a) : ∃ before gaps after,
    String.ofList p = before ++ spaced ts gaps ++ after ∧ gaps.length = ts.length - 1 ∧
      IsBlankText before ∧ (∀ w ∈ gaps, IsBlankText w) ∧ IsBlankText after := by
  induction h with
  | nil =>
    refine ⟨"", [], "", rfl, rfl, ?_, by simp, ?_⟩ <;> simp [IsBlankText]
  | @blank c p a ts hc _ ih =>
    obtain ⟨before, gaps, after, hp, hlen, hb, hg, ha⟩ := ih
    refine ⟨String.singleton c ++ before, gaps, after, ?_, hlen, ?_, hg, ha⟩
    · rw [String.ofList_cons, hp]
      simp only [String.append_assoc]
    · simpa [IsBlankText, hc] using hb
  | @token t p a ts hf ht _ ih =>
    obtain ⟨before, gaps, after, hp, hlen, hb, hg, ha⟩ := ih
    cases ts with
    | nil =>
      refine ⟨"", [], before ++ after, ?_, rfl, by simp [IsBlankText], by simp, ?_⟩
      · rw [String.ofList_append, hp, String.ofList_toList]
        simp [spaced]
      · simp only [IsBlankText, String.toList_append, List.mem_append]
        exact fun c hc ↦ hc.elim (hb c) (ha c)
    | cons u ts =>
      refine ⟨"", before :: gaps, after, ?_, ?_, by simp [IsBlankText], ?_, ha⟩
      · rw [String.ofList_append, hp, String.ofList_toList]
        simp only [spaced, String.empty_append, String.append_assoc]
      · simp only [List.length_cons] at hlen ⊢
        omega
      · simpa using ⟨hb, hg⟩

theorem Kind.mem_byPriority (k : Kind) : k ∈ byPriority := by cases k <;> decide

theorem match?_eq_none_of_first? (h : first? s = none) (k : Kind) : k.match? s = none :=
  Option.map_eq_none_iff.1 (List.findSome?_eq_none_iff.1 h k k.mem_byPriority)

theorem Stuck.not_endsBefore (h : Stuck (r ++ a)) (hr : k.Spells r) : ¬ k.EndsBefore a := by
  intro ha
  obtain ⟨n, -, hn⟩ := Kind.match?_of_spells hr ha
  rw [match?_eq_none_of_first? h.first?] at hn
  cases hn

/-- A text that is read is the texts of its tokens with blanks around them. Where a text cannot be
read on, all before that place is read, and no pattern fits there. -/
theorem scan_lossless (s : String) :
    (∀ ts, scan s = .ok ts → (∀ t ∈ ts, t.raw ≠ "") ∧ ∃ before gaps after,
      s = before ++ spaced ts gaps ++ after ∧ gaps.length = ts.length - 1 ∧
        IsBlankText before ∧ (∀ w ∈ gaps, IsBlankText w) ∧ IsBlankText after) ∧
    ∀ offset rest, scan s = .error (.unrecognized offset rest) → ∃ read : String,
      s = read ++ rest ∧ read.utf8ByteSize = offset ∧ rest ≠ "" ∧
        (∀ c ∈ rest.toList.head?, Text.isBlank c = false) ∧
        (∀ k : Kind, k.match? rest.toList = none ∧
          ∀ r a, rest.toList = r ++ a → k.Spells r → ¬ k.EndsBefore a) ∧
        ∃ ts, scan read = .ok ts := by
  constructor
  · intro ts h
    have hp := scan_eq_ok_iff.1 h
    refine ⟨fun t ↦ hp.raw_ne, ?_⟩
    obtain ⟨before, gaps, after, hs, h⟩ := hp.eq_spaced
    exact ⟨before, gaps, after, by rw [← hs, String.ofList_toList], h⟩
  · intro offset rest h
    obtain ⟨p, ts, hs, hp, hstuck, rfl⟩ := scanFrom_eq_unrecognized h
    refine ⟨String.ofList p, ?_, ?_, ?_, hstuck.not_isBlank, fun k ↦ ⟨?_, ?_⟩, ts, ?_⟩
    · rw [← String.ofList_toList (s := s), hs, String.ofList_append, String.ofList_toList]
    · rw [← Text.byteLength_toList, String.toList_ofList, Nat.zero_add]
    · rintro rfl
      exact hstuck.ne_nil rfl
    · exact match?_eq_none_of_first? hstuck.first? k
    · intro r a heq
      exact (heq ▸ hstuck).not_endsBefore
    · rw [scan_eq_ok_iff, String.toList_ofList]
      exact hp.cut

/-- A word in which no boundary follows `falſe` is read up to its long s, which starts no token. -/
theorem scan_lossless_longS :
    (∃ ts before gaps after, scan "true fal" = .ok ts ∧
      "true fal" = before ++ spaced ts gaps ++ after ∧ ∀ w ∈ gaps, IsBlankText w) ∧
    ∃ read : String, scan "true falſeX" = .error (.unrecognized 8 "ſeX") ∧
      "true falſeX" = read ++ "ſeX" ∧ read.utf8ByteSize = 8 ∧ ∃ ts, scan read = .ok ts := by
  have hok : scan "true fal" = .ok [⟨.trueWord, "true"⟩, ⟨.keyName, "fal"⟩] := by decide +kernel
  have herror : scan "true falſeX" = .error (.unrecognized 8 "ſeX") := by decide +kernel
  obtain ⟨-, before, gaps, after, hs, -, -, hgaps, -⟩ := (scan_lossless "true fal").1 _ hok
  obtain ⟨read, hread, hlen, -, -, -, hts⟩ := (scan_lossless "true falſeX").2 8 "ſeX" herror
  exact ⟨⟨_, before, gaps, after, hok, hs, hgaps⟩, read, herror, hread, hlen, hts⟩

def IsGap (w : String) : Prop := w ≠ "" ∧ IsBlankText w

instance (w : String) : Decidable (IsGap w) := inferInstanceAs (Decidable (_ ∧ _))

theorem IsGap.isSeparator {w : String} (hw : IsGap w) :
    ∀ c ∈ (w.toList ++ a).head?, IsSeparator c := by
  obtain ⟨b, s, hb⟩ := List.exists_cons_of_ne_nil (mt String.toList_eq_nil_iff.1 hw.1)
  intro c hc
  rw [hb, List.cons_append, List.head?_cons, Option.mem_some_iff] at hc
  exact hc ▸ isSeparator_of_isBlank (hw.2 b (hb ▸ List.mem_cons_self))

theorem reads_spaced {gaps : List String} (hts : ∀ t ∈ ts, Reads t.raw.toList [t] [])
    (hlen : gaps.length = ts.length - 1) (hgaps : ∀ w ∈ gaps, IsGap w) :
    Reads (spaced ts gaps).toList ts [] := by
  induction ts generalizing gaps with
  | nil => exact .nil []
  | cons t ts ih =>
    have ht := hts t List.mem_cons_self
    have hts := fun u hu ↦ hts u (List.mem_cons_of_mem t hu)
    cases gaps with
    | nil =>
      obtain rfl : ts = [] := List.length_eq_zero_iff.1 (by simpa using hlen.symm)
      simpa [spaced] using ht
    | cons w gaps =>
      have hlen : gaps.length = ts.length - 1 := by
        simp only [List.length_cons] at hlen
        omega
      have hrest := ih hts hlen fun u hu ↦ hgaps u (List.mem_cons_of_mem w hu)
      have hw := hgaps w List.mem_cons_self
      rw [spaced, String.toList_append, String.toList_append, List.append_assoc]
      have hsep := hw.isSeparator (a := (spaced ts gaps).toList)
      exact (ht.append_separator hsep).append (by simp) ((Reads.blanks hw.2).append rfl hrest)

/-- The tokens of a text stay the same when they are spaced out by any blanks, and each one is the
token of its own text. -/
theorem scan_spaced {s : String} (h : scan s = .ok ts) :
    (∀ gaps, gaps.length = ts.length - 1 → (∀ w ∈ gaps, IsGap w) →
      scan (spaced ts gaps) = .ok ts) ∧ ∀ t ∈ ts, scan t.raw = .ok [t] := by
  have hts := fun t ht ↦ (scan_eq_ok_iff.1 h).of_mem (t := t) ht
  exact ⟨fun gaps hlen hgaps ↦ scan_eq_ok_iff.2 (reads_spaced hts hlen hgaps),
    fun t ht ↦ scan_eq_ok_iff.2 (hts t ht)⟩

theorem scan_spaced_path : ∃ ts, scan "RD::@0>=0" = .ok ts ∧
    scan "RD:: @0\u00a0>=\n\t0" = .ok ts ∧ ∀ t ∈ ts, scan t.raw = .ok [t] := by
  have h : scan "RD::@0>=0" = .ok [⟨.keyPath, "RD::"⟩, ⟨.keyValue, "@0"⟩, ⟨.ge, ">="⟩,
    ⟨.integer, "0"⟩] := by decide +kernel
  have hgaps : ∀ w ∈ [" ", "\u00a0", "\n\t"], IsGap w := by decide
  exact ⟨_, h, (scan_spaced h).1 _ rfl hgaps, (scan_spaced h).2⟩

end Token

def ScanError.shift (n : ℕ) : ScanError → ScanError
  | unrecognized offset rest => unrecognized (n + offset) rest
  | numberOutOfRange raw => numberOutOfRange raw

namespace Token

theorem scanFrom_add (n o : ℕ) (s : List Char) :
    scanFrom (n + o) s = (scanFrom o s).mapError (ScanError.shift n) := by
  obtain ⟨p, ts, a, rfl, hp, ha⟩ := exists_reads s
  rw [scanFrom_append hp, scanFrom_append hp]
  rcases ha with rfl | ha | ha
  · rw [scanFrom, scanFrom]
    rfl
  · rw [scanFrom_stuck ha, scanFrom_stuck ha, Nat.add_assoc]
    rfl
  · obtain ⟨raw, hraw⟩ := scanFrom_outOfRange ha
    rw [hraw, hraw]
    rfl

/-- A text with blanks in front of another one is read as the tokens of the two. -/
theorem scan_append_gap {a b w : String} {ts : List Token} (ha : scan a = .ok ts) (hw : IsGap w) :
    scan (a ++ w ++ b) =
      ((scan b).mapError (ScanError.shift (a ++ w).utf8ByteSize)).map (ts ++ ·) := by
  have hread : Reads (a ++ w).toList ts b.toList := by
    rw [String.toList_append, ← List.append_nil ts]
    have hsep := hw.isSeparator (a := b.toList)
    exact ((scan_eq_ok_iff.1 ha).append_separator hsep).append (by simp) (.blanks hw.2)
  rw [scan, scan, String.toList_append, scanFrom_append hread, Text.byteLength_toList,
    Nat.add_comm, scanFrom_add]

theorem scan_append_gap_stray :
    scan "fn:Eval(@a" = .ok [⟨.functionHead, "fn:Eval("⟩, ⟨.keyValue, "@a"⟩] ∧ IsGap "\u2003" ∧
      scan "fn:Eval(@a\u2003# 2)" = .error (.unrecognized 13 "# 2)") := by
  have ha : scan "fn:Eval(@a" = .ok [⟨.functionHead, "fn:Eval("⟩, ⟨.keyValue, "@a"⟩] := by
    decide +kernel
  have hb : scan "# 2)" = .error (.unrecognized 0 "# 2)") := by decide +kernel
  have hw : IsGap "\u2003" := by decide
  refine ⟨ha, hw, (scan_append_gap (b := "# 2)") ha hw).trans ?_⟩
  rw [hb]
  rfl

end Token

end PdfSchema
