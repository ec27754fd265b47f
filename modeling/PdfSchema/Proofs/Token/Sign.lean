import PdfSchema.Proofs.Token.Reading

namespace PdfSchema.Token

def signs : List Char := ['=', '!', '<', '>', '&', '|', '+', '/']

namespace Kind

def isSign : Kind → Bool
  | eq | ne | ge | le | and | or | gt | lt | plus | divide => true
  | _ => false

theorem isSign_eq_isOperator {k : Kind} (hmodulo : k ≠ modulo) (hminus : k ≠ minus)
    (htimes : k ≠ times) : k.isSign = k.isOperator := by
  cases k <;> first | rfl | contradiction

variable {k : Kind} {c : Char}

theorem forall_of_all {cs : List Char} {P : Char → Kind → Prop} [∀ c k, Decidable (P c k)]
    (h : cs.all (fun c ↦ byPriority.all fun k ↦ P c k) = true) (hc : c ∈ cs) (k : Kind) : P c k :=
  of_decide_eq_true (List.all_eq_true.1 (List.all_eq_true.1 h c hc) k k.mem_byPriority)

theorem isSign_iff_of_starts (h : k.starts c = true) : k.isSign = true ↔ c ∈ signs := by
  constructor
  · intro hk
    cases k with
    | eq | ne | ge | le | and | or | gt | lt | plus | divide =>
      obtain rfl := of_decide_eq_true h
      decide
    | _ => cases hk
  · intro hc
    exact forall_of_all (P := fun c k ↦ k.starts c = true → k.isSign = true) (by decide) hc k h

/-- An operator goes on with signs only, and other tokens but those between quotes with none. -/
theorem isSign_iff_of_continues (h : k.continues c = true) (hq : k ≠ quoted) :
    k.isSign = true ↔ c ∈ signs := by
  constructor
  · intro hk
    cases k with
    | eq | ne | ge | le | and | or =>
      obtain rfl := of_decide_eq_true h
      decide
    | gt | lt | plus | divide => cases h
    | _ => cases hk
  · intro hc
    exact forall_of_all (P := fun c k ↦ k.continues c = true → k ≠ quoted → k.isSign = true)
      (by decide) hc k h hq

theorem not_isWordChar_of_mem_signs (h : c ∈ signs) : isWordChar c = false := by
  have hsigns : signs.all (!isWordChar ·) = true := by decide
  simpa using List.all_eq_true.1 hsigns c h

theorem isSign_eq_false_of_isWord (h : k.isWord = true) : k.isSign = false := by
  cases k <;> first | rfl | cases h

def isOpen : Kind → Bool
  | functionHead | openParen | openBracket | comma => true
  | _ => false

theorem eq_of_starts_of_isOpen {k' : Kind} (hk : k.isOpen = true) (hhead : k ≠ functionHead)
    (h : k.starts c = true) (h' : k'.starts c = true) : k' = k := by
  cases k with
  | functionHead => contradiction
  | openParen | openBracket | comma =>
    obtain rfl := of_decide_eq_true h
    cases k' <;> first | rfl | (revert h'; decide)
  | _ => cases hk

end Kind

theorem isSeparator_of_mem {c : Char} (h : c ∈ [',', ')', ']']) : IsSeparator c := by
  intro k
  exact Kind.forall_of_all (P := fun c k ↦ k.continues c = true → k = .quoted) (by decide) h k

variable {k : Kind} {r e : List Char}

theorem spells_of_first? (h : first? r = some (k, r.length)) : k.Spells r := by
  obtain ⟨r', a, hr, hlen, hspells, -⟩ := Kind.spells_of_match? (match?_of_first? h)
  have ha : a = [] := by
    have hr := congrArg List.length hr
    rw [List.length_append] at hr
    exact List.eq_nil_of_length_eq_zero (by omega)
  rwa [hr, ha, List.append_nil]

theorem first?_append_of_sign (h : first? r = some (k, r.length))
    (he : ∀ c ∈ e.head?, ¬ (k.isSign = true ↔ c ∈ signs)) :
    first? (r ++ e) = some (k, r.length) := by
  have hr := spells_of_first? h
  obtain ⟨c, w, rfl, hc, -⟩ := Kind.shapes_of_spells hr
  apply first?_append h
  · by_cases hq : k = .quoted
    · subst hq
      exact Pattern.quoted?_append hr e
    · apply Kind.match?_append_of_stop (match?_of_first? h) (by simp)
      · exact fun d hd ↦ Bool.eq_false_iff.2 fun hcont ↦
          he d hd (Kind.isSign_iff_of_continues hcont hq)
      · intro hw d hd
        have hd := he d hd
        rw [Kind.isSign_eq_false_of_isWord hw] at hd
        exact Kind.not_isWordChar_of_mem_signs (by simpa using hd)
  · intro k' hne hshape d hd
    refine Bool.eq_false_iff.2 fun hcont ↦ ?_
    obtain ⟨c', w', hcw, hc', -⟩ := hshape
    obtain rfl : c = c' := (List.cons.inj hcw).1
    by_cases hq : k' = .quoted
    · subst hq
      obtain rfl : c = '\'' := of_decide_eq_true hc'
      exact hne (Kind.eq_quoted_of_starts hc).symm
    · -- Both kinds start with `c`, so both are signs or neither is.
      apply he d hd
      rw [Kind.isSign_iff_of_starts hc, ← Kind.isSign_iff_of_starts hc']
      exact Kind.isSign_iff_of_continues hcont hq

theorem first?_append_of_isOpen (h : first? r = some (k, r.length)) (hk : k.isOpen = true)
    (e : List Char) : first? (r ++ e) = some (k, r.length) := by
  have hr := spells_of_first? h
  cases k with
  | functionHead =>
    refine first?_append h (Pattern.functionHead?_append hr e) fun k' hne hshape ↦ ?_
    obtain ⟨c, w, -, -, -, rfl⟩ := hr
    obtain ⟨c', w', hcw, hc', hcont⟩ := hshape
    obtain ⟨rfl, rfl⟩ := List.cons.inj hcw
    -- Only heads go on with `(`, which a head has already.
    have honly : ∀ k ∈ Kind.byPriority, k.starts 'f' = true → k.continues '(' = true →
        k = .functionHead := by decide
    exact absurd (honly k' k'.mem_byPriority hc' (hcont _ (by simp))) hne
  | openParen | openBracket | comma =>
    obtain rfl : r = _ := hr
    refine first?_append h (by simp [Kind.match?, Pattern.fixed?]) fun k' hne hshape ↦ ?_
    obtain ⟨c', w', hcw, hc', -⟩ := hshape
    obtain rfl := (List.cons.inj hcw).1
    exact absurd (Kind.eq_of_starts_of_isOpen hk (by simp) rfl hc') hne
  | _ => cases hk

variable {t : Token} {p a : List Char} {ts : List Token}

theorem ReadAlone.kind_ne_times (h : t.ReadAlone) : t.kind ≠ .times := by
  intro hk
  have hraw : t.raw.toList = ['*'] := by
    have hr := spells_of_first? h.first
    rwa [hk] at hr
  have hf := h.first
  rw [hk, hraw] at hf
  revert hf
  decide +kernel

theorem ReadAlone.reads (h : t.ReadAlone)
    (ha : ∀ c ∈ a.head?, IsSeparator c ∨ ¬ (t.kind.isSign = true ↔ c ∈ signs)) :
    Reads t.raw.toList [t] a := by
  rw [← List.append_nil t.raw.toList]
  refine .token ?_ h.ofRaw (.nil a)
  cases a with
  | nil => simpa using h.first
  | cons c a =>
    rcases ha c rfl with hc | hc
    · exact first?_append_of_isSeparator h.first (by simpa using hc)
    · exact first?_append_of_sign h.first (by simpa using hc)

theorem ReadAlone.reads_append (h : t.ReadAlone) (ht : t.kind.isOpen = true) (hp : Reads p ts a) :
    Reads (t.raw.toList ++ p) (t :: ts) a :=
  .token (first?_append_of_isOpen h.first ht _) h.ofRaw hp

end PdfSchema.Token
