import PdfSchema.Proofs.Token.Shape

namespace PdfSchema.Token

variable {k : Kind} {r s t a e : List Char} {n : ℕ} {c : Char}

namespace Kind

/-- A pattern that fits before a cut fits in the same way where the text goes on, unless it is that
of a word and ends at the cut. -/
theorem match?_append_of_isWord (hw : k.isWord = true) (h : k.match? t = some n)
    (ha : n = t.length → ∀ c ∈ a.head?, isWordChar c = false) : k.match? (t ++ a) = some n := by
  obtain ⟨r, u, rfl, rfl, hr, hu⟩ := (match?_eq_some_iff_of_isWord hw).1 h
  refine (match?_eq_some_iff_of_isWord hw).2 ⟨r, u ++ a, by simp, rfl, hr, ?_⟩
  cases u with
  | nil => exact ha (by simp)
  | cons c u => exact hu

theorem match?_of_append (h : k.match? (t ++ a) = some n) (hn : n ≤ t.length) :
    k.match? t = some n := by
  by_cases hw : k.isWord = true
  · obtain ⟨r, b, heq, rfl, hr, hb⟩ := (match?_eq_some_iff_of_isWord hw).1 h
    obtain ⟨u, rfl⟩ : r <+: t := List.prefix_of_prefix_length_le ⟨b, heq.symm⟩ ⟨a, rfl⟩ hn
    obtain rfl : u ++ a = b := by simpa using heq
    refine (match?_eq_some_iff_of_isWord hw).2 ⟨r, u, rfl, rfl, hr, fun c hc ↦ hb c ?_⟩
    simp [Option.mem_def.1 hc]
  · exact (recognizes_match? (by simpa using hw)).of_append h hn

theorem shapes_of_length_lt (h : k.match? (t ++ e) = some n) (ht : t ≠ []) (hn : t.length < n) :
    k.Shapes t ∧ ∃ c ∈ e.head?, k.continues c = true := by
  obtain ⟨r, b, heq, rfl, hr, -⟩ := spells_of_match? h
  obtain ⟨u, rfl⟩ : t <+: r :=
    List.prefix_of_prefix_length_le ⟨e, rfl⟩ ⟨b, heq.symm⟩ (by omega)
  obtain ⟨d, u, rfl⟩ : ∃ d v, u = d :: v := by
    refine List.exists_cons_of_ne_nil ?_
    rintro rfl
    simp at hn
  obtain rfl : e = d :: (u ++ b) := by simpa using heq
  obtain ⟨c, t, rfl⟩ := List.exists_cons_of_ne_nil ht
  obtain ⟨c', w, hcw, hc, hw⟩ := shapes_of_spells hr
  obtain ⟨rfl, rfl⟩ := List.cons.inj hcw
  exact ⟨⟨c, t, rfl, hc, fun x hx ↦ hw x (by simp [hx])⟩, d, rfl, hw d (by simp)⟩

theorem match?_append_of_stop (h : k.match? t = some n) (ht : t ≠ [])
    (he : ∀ c ∈ e.head?, k.continues c = false)
    (hw : k.isWord = true → ∀ c ∈ e.head?, isWordChar c = false) :
    k.match? (t ++ e) = some n := by
  by_cases hk : k.isWord = true
  · exact match?_append_of_isWord hk h fun _ ↦ hw hk
  · obtain ⟨m, -, hm⟩ := (recognizes_match? (by simpa using hk)).exists_append h e
    have hle : m ≤ t.length := by
      by_contra hlt
      obtain ⟨-, c, hc, hcont⟩ := shapes_of_length_lt hm ht (by omega)
      simp [he c hc] at hcont
    rwa [← Option.some.inj ((match?_of_append hm hle).symm.trans h)]

end Kind

theorem first?_congr (h : first? s = some (k, n)) (hk : k.match? t = some n)
    (ht : ∀ k' : Kind, k' ≠ k → k'.match? s = none → k'.match? t = none) :
    first? t = some (k, n) := by
  obtain ⟨l₁, k', l₂, hl, hf, hno⟩ := List.findSome?_eq_some_iff.1 h
  obtain ⟨m, hm, he⟩ := Option.map_eq_some_iff.1 hf
  cases he
  refine List.findSome?_eq_some_iff.2 ⟨l₁, k, l₂, hl, by rw [hk]; rfl, fun x hx ↦ ?_⟩
  have hx := Option.map_eq_none_iff.1 (hno x hx)
  rw [ht x ?_ hx]
  · rfl
  · rintro rfl
    cases hx.symm.trans hm

theorem match?_of_first? (h : first? s = some (k, n)) : k.match? s = some n := by
  obtain ⟨k', -, hf⟩ := List.exists_of_findSome?_eq_some h
  obtain ⟨m, hm, he⟩ := Option.map_eq_some_iff.1 hf
  cases he
  exact hm

theorem Kind.starts_of_match? (h : k.match? (c :: s) = some n) : k.starts c = true := by
  obtain ⟨r, a, heq, -, hr, -⟩ := spells_of_match? h
  obtain ⟨c', w, rfl, hc, -⟩ := shapes_of_spells hr
  rwa [(List.cons.inj heq).1]

theorem Kind.eq_quoted_of_starts (h : k.starts '\'' = true) : k = .quoted := by
  cases k <;> first | rfl | (revert h; decide)

/-- The token that starts a text starts it also where the text goes on, if its pattern takes as much
there and no other token has the shape of the text and goes on with what follows. -/
theorem first?_append (h : first? t = some (k, n)) (hk : k.match? (t ++ e) = some n)
    (he : ∀ k' : Kind, k' ≠ k → k'.Shapes t → ∀ c ∈ e.head?, k'.continues c = false) :
    first? (t ++ e) = some (k, n) := by
  have ht : t ≠ [] := by
    obtain ⟨r, a, rfl, -, hr, -⟩ := Kind.spells_of_match? (match?_of_first? h)
    obtain ⟨c, w, rfl, -⟩ := Kind.shapes_of_spells hr
    simp
  refine first?_congr h hk fun k' hne hno ↦ Option.eq_none_iff_forall_ne_some.2 fun m hm ↦ ?_
  by_cases hlt : t.length < m
  · obtain ⟨hshape, c, hc, hcont⟩ := Kind.shapes_of_length_lt hm ht hlt
    simp [he k' hne hshape c hc] at hcont
  · cases hno.symm.trans (Kind.match?_of_append hm (by omega))

theorem first?_append_of_isSeparator (h : first? t = some (k, n))
    (he : ∀ c ∈ e.head?, IsSeparator c) : first? (t ++ e) = some (k, n) := by
  have hk := match?_of_first? h
  obtain ⟨r, a, rfl, rfl, hr, -⟩ := Kind.spells_of_match? hk
  obtain ⟨c, w, rfl, hc, -⟩ := Kind.shapes_of_spells hr
  refine first?_append h ?_ fun k' hne hshape d hd ↦ ?_
  · by_cases hq : k = .quoted
    · subst hq
      rw [List.append_assoc]
      exact Pattern.quoted?_append hr (a ++ e)
    · apply Kind.match?_append_of_stop hk (by simp)
      · exact fun d hd ↦ Bool.eq_false_iff.2 fun hcont ↦ hq (he d hd k hcont)
      · exact fun _ d hd ↦ (he d hd).not_isWordChar
  · -- A quote starts no other token than the one between quotes.
    refine Bool.eq_false_iff.2 fun hcont ↦ hne ?_
    obtain rfl := he d hd k' hcont
    obtain ⟨c', w', hcw, hc', -⟩ := hshape
    obtain rfl : c = c' := (List.cons.inj hcw).1
    obtain rfl : c = '\'' := of_decide_eq_true hc'
    exact (Kind.eq_quoted_of_starts hc).symm

theorem Pattern.run_le_of_stop {p : Char → Bool} (ha : ∀ c ∈ a.head?, p c = false) :
    run p (r ++ a) ≤ r.length := by
  obtain ⟨u, v, rfl, -, hu, hv⟩ := exists_run p r
  cases v with
  | nil => rw [List.append_nil, run_append_of_stop hu ha]
  | cons c v =>
    have hrun : run p (u ++ (c :: v ++ a)) = u.length := run_append_of_stop hu hv
    rw [List.append_assoc, hrun, List.length_append]
    omega

theorem Pattern.keyName?_stop (h : keyName? (r ++ a) = some r.length)
    (hr : Kind.keyName.Spells r) : ∀ c ∈ a.head?, isNameChar c = false := by
  intro c hc
  obtain ⟨a, rfl⟩ := List.head?_eq_some_iff.1 hc
  by_contra hn
  obtain ⟨x, y, hx, hy, rfl⟩ := hr
  have hlong : Kind.keyName.Spells (x ++ y ++ [c]) := by
    refine ⟨x, y ++ [c], hx, fun d hd ↦ ?_, by simp⟩
    rcases List.mem_append.1 hd with hd | hd
    · exact hy d hd
    · rw [List.mem_singleton.1 hd]
      simpa using hn
  obtain ⟨m, hm, hmatch⟩ := recognizes_keyName.found a hlong
  rw [List.append_assoc, List.singleton_append, h] at hmatch
  rw [← Option.some.inj hmatch, List.length_append, List.length_singleton] at hm
  omega

theorem Kind.Spells.run_le_of_keyPath (h : keyPath.Spells r) :
    Pattern.run isWordChar (r ++ a) ≤ r.length := by
  obtain ⟨ss, hne, hss, rfl⟩ := h
  obtain ⟨s, ss, rfl⟩ := List.exists_cons_of_ne_nil hne
  obtain ⟨x, y, -, -, rfl⟩ := hss s List.mem_cons_self
  have hle := Pattern.run_le_of_stop (p := isWordChar) (r := x ++ y)
    (a := ':' :: ':' :: (ss.flatten ++ a)) (by simp; decide)
  simp only [List.flatten_cons, List.append_assoc, List.cons_append, List.nil_append,
    List.length_append, List.length_cons] at hle ⊢
  omega

theorem run_le_of_match? (h : k.match? (c :: s) = some n) (hc : c.isAlpha = true) :
    Pattern.run isWordChar (c :: s) ≤ n := by
  obtain ⟨r, a, heq, rfl, hr, ha⟩ := Kind.spells_of_match? h
  have hstart := Kind.starts_of_match? h
  rw [heq] at h ⊢
  cases k with
  | functionHead =>
    obtain ⟨d, w, -, -, -, rfl⟩ := hr
    have hle := Pattern.run_le_of_stop (p := isWordChar) (r := ['f', 'n'])
      (a := ':' :: d :: (w ++ ['('] ++ a)) (by simp; decide)
    refine hle.trans ?_
    simp
  | trueWord | falseWord | modulo => exact Pattern.run_le_of_stop (ha rfl)
  | keyPath => exact hr.run_le_of_keyPath
  | keyName =>
    refine Pattern.run_le_of_stop fun b hb ↦ ?_
    have hb := Pattern.keyName?_stop h hr b hb
    simp only [isNameChar, isSegmentChar, Bool.or_eq_false_iff] at hb
    exact hb.1.1.1
  | real | integer =>
    rcases Bool.or_eq_true_iff.1 hstart with hd | hd
    · exact absurd hd (by simp [not_isDigit_of_isAlpha hc])
    · obtain rfl := of_decide_eq_true hd
      exact absurd hc (by decide)
  | _ =>
    obtain rfl := of_decide_eq_true hstart
    exact absurd hc (by decide)

theorem Kind.isAlpha_of_starts (hw : k.isWord = true) (h : k.starts c = true) :
    c.isAlpha = true := by
  cases k with
  | trueWord | falseWord =>
    apply isAlpha_of_toLower
    rw [of_decide_eq_true h]
    rfl
  | modulo =>
    obtain rfl := of_decide_eq_true h
    rfl
  | _ => cases hw

theorem Kind.isAlpha_of_continues (hw : k.isWord = true) (h : k.continues c = true) :
    c.isAlpha = true ∨ k = .falseWord ∧ c = 'ſ' := by
  cases k with
  | trueWord | modulo => exact .inl h
  | falseWord => exact (Bool.or_eq_true_iff.1 h).imp_right fun hc ↦ ⟨rfl, of_decide_eq_true hc⟩
  | _ => cases hw

theorem isWordChar_of_isAlpha (h : c.isAlpha = true) : isWordChar c = true := by
  simp [isWordChar, Char.isAlphanum, h]

theorem Kind.eq_falseWord_of_match? {u v : List Char} (h : k.match? (c :: (u ++ 'ſ' :: v)) = some n)
    (hc : c.isAlpha = true) (hn : u.length + 1 < n) : k = .falseWord := by
  obtain ⟨r, b, heq, rfl, hr, -⟩ := spells_of_match? h
  have hstart := starts_of_match? h
  obtain ⟨z, rfl⟩ : c :: (u ++ ['ſ']) <+: r :=
    List.prefix_of_prefix_length_le ⟨v, by simp⟩ ⟨b, heq.symm⟩ (by simp; omega)
  obtain ⟨c', w, hcw, -, hw⟩ := shapes_of_spells hr
  obtain ⟨rfl, rfl⟩ := List.cons.inj hcw
  rcases isVisible_of_continues (hw 'ſ' (by simp)) with hv | rfl | ⟨rfl, -⟩
  · exact absurd hv.2 (by decide)
  · obtain rfl := of_decide_eq_true hstart
    exact absurd hc (by decide)
  · rfl

/-- Where a word fits at the end of a cut text but not where the text goes on, no token that starts
there ends before the cut, except in front of a long s. -/
theorem head?_drop_of_isWord {k' : Kind} (hw : k'.isWord = true) (hr : k'.Spells t)
    (ha : ∃ c ∈ a.head?, isWordChar c = true) (h : k.match? (t ++ a) = some n)
    (hn : n ≤ t.length) (hne : k' ≠ k) : (t.drop n).head? = some 'ſ' := by
  obtain ⟨c, w, rfl, hstart, hcw⟩ := Kind.shapes_of_spells hr
  have hc := Kind.isAlpha_of_starts hw hstart
  have hle : Pattern.run isWordChar (c :: w ++ a) ≤ n := run_le_of_match? h hc
  obtain ⟨u, v, rfl, -, hu, hv⟩ := Pattern.exists_run isWordChar w
  have hu : ∀ d ∈ c :: u, isWordChar d = true := by
    rintro d (_ | ⟨_, hd⟩)
    · exact isWordChar_of_isAlpha hc
    · exact hu d hd
  cases v with
  | nil =>
    obtain ⟨b, hb, hbw⟩ := ha
    obtain ⟨a, rfl⟩ := List.head?_eq_some_iff.1 hb
    rw [List.append_nil] at hle hn
    have hrun : Pattern.run isWordChar (c :: u ++ b :: a) =
        (c :: u).length + (Pattern.run isWordChar a + 1) := by
      rw [Pattern.run_append hu, Pattern.run, List.takeWhile_cons_of_pos hbw]
      rfl
    omega
  | cons d v =>
    have hd := hv d rfl
    obtain ⟨rfl, rfl⟩ : k' = .falseWord ∧ d = 'ſ' := by
      rcases Kind.isAlpha_of_continues hw (hcw d (by simp)) with hda | h
      · rw [isWordChar_of_isAlpha hda] at hd
        cases hd
      · exact h
    have hrun : Pattern.run isWordChar (c :: u ++ 'ſ' :: (v ++ a)) = (c :: u).length :=
      Pattern.run_append_of_stop hu (by simpa using hd)
    simp only [List.cons_append, List.append_assoc] at h hle hrun
    rw [hrun] at hle
    rcases hle.eq_or_lt with rfl | hlt
    · simp
    · exact absurd (Kind.eq_falseWord_of_match? h hc (by simpa using hlt)) hne.symm

theorem first?_of_append (h : first? (t ++ a) = some (k, n)) (hn : n ≤ t.length)
    (hs : (t.drop n).head? ≠ some 'ſ') : first? t = some (k, n) := by
  have hk := match?_of_first? h
  refine first?_congr h (Kind.match?_of_append hk hn) fun k' hne hno ↦ ?_
  refine Option.eq_none_iff_forall_ne_some.2 fun m hm ↦ ?_
  by_cases hw : k'.isWord = true
  · by_cases ha : m = t.length → ∀ c ∈ a.head?, isWordChar c = false
    · exact absurd (hno.symm.trans (Kind.match?_append_of_isWord hw hm ha)) (by simp)
    · push Not at ha
      obtain ⟨hlen, c, hc, hcw⟩ := ha
      obtain ⟨r, u, rfl, rfl, hr, -⟩ := (Kind.match?_eq_some_iff_of_isWord hw).1 hm
      obtain rfl : u = [] := by simpa using hlen
      rw [List.append_nil] at hs hn hk
      exact hs (head?_drop_of_isWord hw hr ⟨c, hc, by simpa using hcw⟩ hk hn hne)
  · obtain ⟨j, -, hj⟩ := (Kind.recognizes_match? (by simpa using hw)).exists_append hm a
    exact absurd (hno.symm.trans hj) (by simp)

end PdfSchema.Token
