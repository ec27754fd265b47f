import Mathlib.Data.List.Forall2
import Mathlib.Data.List.Induction
import PdfSchema.Term.Nesting

namespace PdfSchema

namespace Token

def Kind.closedBy? : Kind → Option Kind
  | functionHead | openParen => some closeParen
  | openBracket => some closeBracket
  | _ => none

def Kind.isClosing : Kind → Bool
  | closeParen | closeBracket => true
  | _ => false

def Kind.isLeaf : Kind → Bool
  | functionHead | openParen | openBracket | closeParen | closeBracket | comma => false
  | _ => true

def withoutCommas (ts : List Token) : List Token := ts.filter fun t ↦ t.kind ≠ .comma

inductive WellNested : List Token → Prop
  | nil : WellNested []
  | leaf {t : Token} {ts : List Token} (ht : t.kind.isLeaf = true) (h : WellNested ts) :
      WellNested (t :: ts)
  | group {t u : Token} {body ts : List Token} (hu : t.kind.closedBy? = some u.kind)
      (hb : WellNested body) (h : WellNested ts) : WellNested (t :: (body ++ u :: ts))

/-- The groups that the tokens `groups` open, the innermost first, are still open after `ts`, and
nothing else in `ts` is out of place. -/
inductive LeavesOpen : List Token → List Token → Prop
  | closed {ts : List Token} (h : WellNested ts) : LeavesOpen ts []
  | opened {t : Token} {ts us groups : List Token} {k : Kind} (h : LeavesOpen ts groups)
      (ht : t.kind.closedBy? = some k) (hu : WellNested us) :
      LeavesOpen (ts ++ t :: us) (t :: groups)

/-- `t` is the first token of `ts` that is out of place: it closes no group, or not the innermost
one of `groups`, which are open where it stands. -/
def OutOfPlace (ts : List Token) (t : Token) (groups : List Token) : Prop :=
  ∃ before after, ts = before ++ t :: after ∧ LeavesOpen before groups ∧
    t.kind.isClosing = true ∧ ∀ g ∈ groups.head?, g.kind.closedBy? ≠ some t.kind

variable {t u : Token} {ts us groups : List Token} {k : Kind}

theorem WellNested.append (h : WellNested ts) (hu : WellNested us) : WellNested (ts ++ us) := by
  induction h with
  | nil => exact hu
  | leaf ht _ ih => exact .leaf ht ih
  | group hc hb _ _ ih =>
    rw [List.cons_append, List.append_assoc, List.cons_append]
    exact .group hc hb ih

theorem LeavesOpen.append (h : LeavesOpen ts groups) (hu : WellNested us) :
    LeavesOpen (ts ++ us) groups := by
  cases h with
  | closed h => exact .closed (h.append hu)
  | opened h ht hus =>
    rw [List.append_assoc, List.cons_append]
    exact .opened h ht (hus.append hu)

theorem LeavesOpen.close {g : Token} (h : LeavesOpen ts (g :: groups))
    (hu : g.kind.closedBy? = some u.kind) : LeavesOpen (ts ++ [u]) groups := by
  cases h with
  | opened h ht hus =>
    rw [List.append_assoc, List.cons_append]
    exact h.append (.group hu hus .nil)

theorem Kind.cases_nesting (k : Kind) : k = .comma ∨ k.isLeaf = true ∨
    (∃ c, k.closedBy? = some c) ∨ k.isClosing = true := by
  cases k <;> simp [isLeaf, closedBy?, isClosing]

/-- Either no token is out of place, or there is a first one. -/
theorem leavesOpen_or_outOfPlace (h : ∀ t ∈ ts, t.kind ≠ .comma) :
    (∃ groups, LeavesOpen ts groups) ∨ ∃ t groups, OutOfPlace ts t groups := by
  induction ts using List.reverseRecOn with
  | nil => exact .inl ⟨[], .closed .nil⟩
  | append_singleton ts t ih =>
    rcases ih fun u hu ↦ h u (List.mem_append_left _ hu) with ⟨groups, ho⟩ | ⟨u, groups, hp⟩
    · rcases t.kind.cases_nesting with hk | hk | ⟨c, hk⟩ | hk
      · exact absurd hk (h t (by simp))
      · exact .inl ⟨groups, ho.append (.leaf hk .nil)⟩
      · exact .inl ⟨t :: groups, ho.opened hk .nil⟩
      · by_cases hg : ∀ g ∈ groups.head?, g.kind.closedBy? ≠ some t.kind
        · exact .inr ⟨t, groups, ts, [], rfl, ho, hk, hg⟩
        · push Not at hg
          obtain ⟨g, hg, hc⟩ := hg
          obtain ⟨groups, rfl⟩ := List.head?_eq_some_iff.1 hg
          exact .inl ⟨groups, ho.close hc⟩
    · obtain ⟨before, after, rfl, hp⟩ := hp
      exact .inr ⟨u, groups, before, after ++ [t], by simp, hp⟩

end Token

open Token

namespace Opening

variable {o : Opening} {t u : Token} {k : Kind}

def token : Opening → Token
  | call name => functionHead name
  | paren => openParen
  | bracket => openBracket

def closingToken : Opening → Token
  | call _ | paren => closeParen
  | bracket => closeBracket

theorem closedBy?_of_ofToken? (h : ofToken? t = some o) : t.kind.closedBy? = some o.closing := by
  unfold ofToken? at h
  split at h
  case h_1 hk =>
    obtain ⟨name, -, rfl⟩ := Option.map_eq_some_iff.1 h
    rw [hk]
    rfl
  case h_2 hk | h_3 hk =>
    cases h
    rw [hk]
    rfl
  case h_4 => cases h

theorem exists_ofToken? (h : t.kind.closedBy? = some k) :
    ∃ o, ofToken? t = some o ∧ o.closing = k := by
  obtain ⟨o, ho⟩ : ∃ o, ofToken? t = some o := by
    cases hk : t.kind with
    | functionHead => exact ⟨_, by simp [ofToken?, functionName?, hk]; rfl⟩
    | openParen | openBracket => exact ⟨_, by simp [ofToken?, hk]; rfl⟩
    | _ =>
      rw [hk] at h
      cases h
  exact ⟨o, ho, Option.some.inj ((closedBy?_of_ofToken? ho).symm.trans h)⟩

theorem ofToken?_token (o : Opening) : ofToken? o.token = some o := by
  cases o with
  | call name => simp [ofToken?, token, functionHead, functionName?]
  | paren | bracket => rfl

theorem tokens_group (o : Opening) (body : List Term) :
    (o.group body).tokens = o.token :: (Formula.tokens body ++ [o.closingToken]) := by
  cases o <;> rfl

theorem kind_closingToken (o : Opening) : o.closingToken.kind = o.closing := by
  cases o <;> rfl

end Opening

namespace Formula

variable {outer : List OpenGroup} {done : List Term} {g : OpenGroup} {t : Token} {ts : List Token}

attribute [local simp] nestInside

theorem nestInside_comma (h : t.kind = .comma) :
    nestInside outer done (t :: ts) = nestInside outer done ts := by
  simp only [nestInside, h]

theorem nestInside_leaf (h : t.kind.isLeaf = true) :
    nestInside outer done (t :: ts) = nestInside outer (.leaf t :: done) ts := by
  cases hk : t.kind <;> simp_all [Opening.ofToken?, Kind.isLeaf]

theorem nestInside_open {o : Opening} (h : Opening.ofToken? t = some o) :
    nestInside outer done (t :: ts) = nestInside (⟨o, done⟩ :: outer) [] ts := by
  have hc := Opening.closedBy?_of_ofToken? h
  cases hk : t.kind <;> simp_all [Kind.closedBy?]

theorem nestInside_close (h : g.opening.closing = t.kind) :
    nestInside (g :: outer) done (t :: ts) =
      nestInside outer (g.opening.group done.reverse :: g.before) ts := by
  have hk : t.kind = .closeParen ∨ t.kind = .closeBracket := by
    rw [← h]
    cases g.opening <;> simp [Opening.closing]
  rcases hk with hk | hk <;> simp only [nestInside, hk, h, if_true]

theorem nestInside_unmatched (h : t.kind.isClosing = true) :
    nestInside [] done (t :: ts) = .error (.unmatchedClose t.raw) := by
  cases hk : t.kind <;> simp_all [Kind.isClosing]

theorem nestInside_mismatched (h : t.kind.isClosing = true) (hne : g.opening.closing ≠ t.kind) :
    nestInside (g :: outer) done (t :: ts) = .error (.mismatchedClose g.opening t.raw) := by
  cases hk : t.kind <;> simp_all [Kind.isClosing]

theorem ofTokens_withoutCommas (ts : List Token) :
    ofTokens (withoutCommas ts) = ofTokens ts := by
  have h (outer done) : nestInside outer done (withoutCommas ts) = nestInside outer done ts := by
    induction ts generalizing outer done with
    | nil => rfl
    | cons t ts ih =>
      by_cases hk : t.kind = .comma
      · rw [nestInside_comma hk, ← ih, withoutCommas, List.filter_cons_of_neg (by simpa using hk)]
        rfl
      rw [withoutCommas, List.filter_cons_of_pos (by simpa using hk)]
      change nestInside outer done (t :: withoutCommas ts) = _
      rcases t.kind.cases_nesting with hc | hc | ⟨c, hc⟩ | hc
      · exact absurd hc hk
      · rw [nestInside_leaf hc, nestInside_leaf hc, ih]
      · obtain ⟨o, ho, -⟩ := Opening.exists_ofToken? hc
        rw [nestInside_open ho, nestInside_open ho, ih]
      · cases outer with
        | nil => rw [nestInside_unmatched hc, nestInside_unmatched hc]
        | cons g outer =>
          by_cases hg : g.opening.closing = t.kind
          · rw [nestInside_close hg, nestInside_close hg, ih]
          · rw [nestInside_mismatched hc hg, nestInside_mismatched hc hg]
  exact h [] []

end Formula

/-- No leaf of the term is a comma or opens or closes a group. -/
inductive Term.IsPlain : Term → Prop
  | leaf {t : Token} (ht : t.kind.isLeaf = true) : IsPlain (.leaf t)
  | group (o : Opening) {body : List Term} (h : ∀ t ∈ body, IsPlain t) : IsPlain (o.group body)

def Token.IsCanonical (t : Token) : Prop :=
  (∀ o, Opening.ofToken? t = some o → t = o.token) ∧
    ∀ o : Opening, t.kind = o.closing → t = o.closingToken

namespace Formula

variable {outer : List OpenGroup} {done : List Term} {ts us : List Token}

theorem nestInside_tokens_of_forall {f : Formula} (hf : ∀ t ∈ f, ∀ outer done ts,
    nestInside outer done (t.tokens ++ ts) = nestInside outer (t :: done) ts)
    (outer : List OpenGroup) (done : List Term) (ts : List Token) :
    nestInside outer done (Formula.tokens f ++ ts) = nestInside outer (f.reverse ++ done) ts := by
  induction f generalizing done with
  | nil => rfl
  | cons t f ih =>
    rw [Formula.tokens, List.append_assoc, hf t List.mem_cons_self,
      ih fun u hu ↦ hf u (List.mem_cons_of_mem t hu), List.reverse_cons, List.append_assoc,
      List.singleton_append]

theorem nestInside_term {t : Term} (h : t.IsPlain) (outer : List OpenGroup) (done : List Term)
    (ts : List Token) :
    nestInside outer done (t.tokens ++ ts) = nestInside outer (t :: done) ts := by
  induction h generalizing outer done ts with
  | leaf hk => rw [Term.tokens, List.singleton_append, nestInside_leaf hk]
  | @group o body _ ih =>
    have hclose : o.closing = o.closingToken.kind := o.kind_closingToken.symm
    rw [Opening.tokens_group, List.cons_append, nestInside_open o.ofToken?_token,
      List.append_assoc, nestInside_tokens_of_forall ih, List.singleton_append,
      nestInside_close hclose, List.append_nil, List.reverse_reverse]

theorem ofTokens_tokens {f : Formula} (h : ∀ t ∈ f, t.IsPlain) :
    ofTokens (Formula.tokens f) = .ok f := by
  have hf := nestInside_tokens_of_forall (fun t ht ↦ nestInside_term (h t ht)) [] [] []
  rw [List.append_nil, List.append_nil] at hf
  rw [ofTokens, hf, nestInside, List.reverse_reverse]

/-- What is well nested is nested to a formula, inside any groups and before any other tokens. -/
theorem exists_of_wellNested (h : WellNested us) : ∃ f : Formula, (∀ t ∈ f, t.IsPlain) ∧
    (∀ outer done ts, nestInside outer done (us ++ ts) = nestInside outer (f.reverse ++ done) ts) ∧
    ((∀ t ∈ us, t.IsCanonical) → Formula.tokens f = us) := by
  induction h with
  | nil => exact ⟨[], by simp, fun _ _ _ ↦ rfl, fun _ ↦ rfl⟩
  | @leaf t us ht _ ih =>
    obtain ⟨f, hf, hn, hs⟩ := ih
    refine ⟨.leaf t :: f, ?_, fun outer done ts ↦ ?_, fun hu ↦ ?_⟩
    · simpa using ⟨.leaf ht, hf⟩
    · rw [List.cons_append, nestInside_leaf ht, hn]
      simp
    · rw [Formula.tokens, hs fun u h ↦ hu u (List.mem_cons_of_mem t h), Term.tokens,
        List.singleton_append]
  | @group t u body us hu _ _ ihb ih =>
    obtain ⟨b, hb, hbn, hbs⟩ := ihb
    obtain ⟨f, hf, hn, hs⟩ := ih
    obtain ⟨o, ho, hclose⟩ := Opening.exists_ofToken? hu
    refine ⟨o.group b :: f, ?_, fun outer done ts ↦ ?_, fun hc ↦ ?_⟩
    · simpa using ⟨.group o hb, hf⟩
    · rw [List.cons_append, nestInside_open ho, List.append_assoc, hbn, List.cons_append,
        nestInside_close hclose, hn]
      simp
    · have hopen := (hc t (by simp)).1 o ho
      have hshut := (hc u (by simp)).2 o hclose.symm
      rw [Formula.tokens, Opening.tokens_group, hbs fun v h ↦ hc v (by simp [h]),
        hs fun v h ↦ hc v (by simp [h]), ← hopen, ← hshut]
      simp

theorem exists_of_leavesOpen {groups : List Token} (h : LeavesOpen us groups) :
    ∃ outer done, List.Forall₂ (fun g t ↦ Opening.ofToken? t = some g.opening) outer groups ∧
      ∀ ts, ofTokens (us ++ ts) = nestInside outer done ts := by
  induction h with
  | closed h =>
    obtain ⟨f, -, hn, -⟩ := exists_of_wellNested h
    exact ⟨[], f.reverse ++ [], .nil, fun ts ↦ hn [] [] ts⟩
  | opened _ ht hu ih =>
    obtain ⟨outer, done, hopen, hn⟩ := ih
    obtain ⟨f, -, hf, -⟩ := exists_of_wellNested hu
    obtain ⟨o, ho, -⟩ := Opening.exists_ofToken? ht
    refine ⟨⟨o, done⟩ :: outer, f.reverse ++ [], .cons ho hopen, fun ts ↦ ?_⟩
    rw [List.append_assoc, List.cons_append, hn, nestInside_open ho, hf]

theorem ofTokens_of_wellNested (h : WellNested us) :
    ∃ f, ofTokens us = .ok f ∧ (∀ t ∈ f, t.IsPlain) ∧
      ((∀ t ∈ us, t.IsCanonical) → Formula.tokens f = us) := by
  obtain ⟨f, hf, hn, hs⟩ := exists_of_wellNested h
  have hus := hn [] [] []
  rw [List.append_nil, List.append_nil, nestInside, List.reverse_reverse] at hus
  exact ⟨f, hus, hf, hs⟩

theorem ofTokens_of_leavesOpen {g : Token} {groups : List Token}
    (h : LeavesOpen us (g :: groups)) :
    ∃ o, Opening.ofToken? g = some o ∧ ofTokens us = .error (.unclosed o) := by
  obtain ⟨outer, done, hopen, hn⟩ := exists_of_leavesOpen h
  cases hopen with
  | @cons og _ outer _ ho hopen =>
    have hus := hn []
    rw [List.append_nil, nestInside] at hus
    exact ⟨og.opening, ho, hus⟩

theorem ofTokens_of_outOfPlace_nil {t : Token} (h : OutOfPlace us t []) :
    ofTokens us = .error (.unmatchedClose t.raw) := by
  obtain ⟨before, after, rfl, hb, ht, -⟩ := h
  obtain ⟨outer, done, hopen, hn⟩ := exists_of_leavesOpen hb
  cases hopen
  rw [hn, nestInside_unmatched ht]

theorem ofTokens_of_outOfPlace_cons {g t : Token} {groups : List Token}
    (h : OutOfPlace us t (g :: groups)) :
    ∃ o, Opening.ofToken? g = some o ∧ ofTokens us = .error (.mismatchedClose o t.raw) := by
  obtain ⟨before, after, rfl, hb, ht, hg⟩ := h
  obtain ⟨outer, done, hopen, hn⟩ := exists_of_leavesOpen hb
  cases hopen with
  | @cons og _ outer _ ho hopen =>
    have hne : og.opening.closing ≠ t.kind := fun hk ↦
      hg g rfl (hk ▸ Opening.closedBy?_of_ofToken? ho)
    exact ⟨og.opening, ho, by rw [hn, nestInside_mismatched ht hne]⟩

/-- Nesting succeeds, or tells the first token out of place or the innermost group left open. -/
theorem ofTokens_cases (h : ∀ t ∈ us, t.kind ≠ .comma) :
    (WellNested us ∧ ∃ f, ofTokens us = .ok f) ∨
    (∃ t, OutOfPlace us t [] ∧ ofTokens us = .error (.unmatchedClose t.raw)) ∨
    (∃ t g groups o, OutOfPlace us t (g :: groups) ∧ Opening.ofToken? g = some o ∧
      ofTokens us = .error (.mismatchedClose o t.raw)) ∨
    ∃ g groups o, LeavesOpen us (g :: groups) ∧ Opening.ofToken? g = some o ∧
      ofTokens us = .error (.unclosed o) := by
  rcases leavesOpen_or_outOfPlace h with ⟨_ | ⟨g, groups⟩, ho⟩ | ⟨t, _ | ⟨g, groups⟩, hp⟩
  · obtain ⟨hw⟩ := ho
    obtain ⟨f, hus, -⟩ := ofTokens_of_wellNested hw
    exact .inl ⟨hw, f, hus⟩
  · obtain ⟨o, hg, hus⟩ := ofTokens_of_leavesOpen ho
    exact .inr (.inr (.inr ⟨g, groups, o, ho, hg, hus⟩))
  · exact .inr (.inl ⟨t, hp, ofTokens_of_outOfPlace_nil hp⟩)
  · obtain ⟨o, hg, hus⟩ := ofTokens_of_outOfPlace_cons hp
    exact .inr (.inr (.inl ⟨t, g, groups, o, hp, hg, hus⟩))

theorem wellNested_of_ofTokens {f : Formula} (h : ∀ t ∈ us, t.kind ≠ .comma)
    (hf : ofTokens us = .ok f) : WellNested us := by
  rcases ofTokens_cases h with ⟨hw, -⟩ | ⟨t, -, hus⟩ | ⟨t, g, groups, o, -, -, hus⟩ |
    ⟨g, groups, o, -, -, hus⟩
  · exact hw
  all_goals
    rw [hf] at hus
    cases hus

theorem ofTokens_eq_unmatchedClose_iff (h : ∀ t ∈ us, t.kind ≠ .comma) {close : String} :
    ofTokens us = .error (.unmatchedClose close) ↔ ∃ t, OutOfPlace us t [] ∧ t.raw = close := by
  refine ⟨fun he ↦ ?_, ?_⟩
  · rcases ofTokens_cases h with ⟨-, f, hus⟩ | ⟨t, hp, hus⟩ | ⟨t, g, groups, o, -, -, hus⟩ |
      ⟨g, groups, o, -, -, hus⟩ <;> cases he.symm.trans hus
    exact ⟨t, hp, rfl⟩
  · rintro ⟨t, hp, rfl⟩
    exact ofTokens_of_outOfPlace_nil hp

theorem ofTokens_eq_mismatchedClose_iff (h : ∀ t ∈ us, t.kind ≠ .comma) {o : Opening}
    {close : String} : ofTokens us = .error (.mismatchedClose o close) ↔
      ∃ t g groups, OutOfPlace us t (g :: groups) ∧ Opening.ofToken? g = some o ∧
        t.raw = close := by
  refine ⟨fun he ↦ ?_, ?_⟩
  · rcases ofTokens_cases h with ⟨-, f, hus⟩ | ⟨t, -, hus⟩ | ⟨t, g, groups, o, hp, hg, hus⟩ |
      ⟨g, groups, o, -, -, hus⟩ <;> cases he.symm.trans hus
    exact ⟨t, g, groups, hp, hg, rfl⟩
  · rintro ⟨t, g, groups, hp, hg, rfl⟩
    obtain ⟨o', hg', hus⟩ := ofTokens_of_outOfPlace_cons hp
    cases hg.symm.trans hg'
    exact hus

theorem ofTokens_eq_unclosed_iff (h : ∀ t ∈ us, t.kind ≠ .comma) {o : Opening} :
    ofTokens us = .error (.unclosed o) ↔
      ∃ g groups, LeavesOpen us (g :: groups) ∧ Opening.ofToken? g = some o := by
  refine ⟨fun he ↦ ?_, ?_⟩
  · rcases ofTokens_cases h with ⟨-, f, hus⟩ | ⟨t, -, hus⟩ | ⟨t, g, groups, o, -, -, hus⟩ |
      ⟨g, groups, o, ho, hg, hus⟩ <;> cases he.symm.trans hus
    exact ⟨g, groups, ho, hg⟩
  · rintro ⟨g, groups, ho, hg⟩
    obtain ⟨o', hg', hus⟩ := ofTokens_of_leavesOpen ho
    cases hg.symm.trans hg'
    exact hus

end Formula

end PdfSchema
