import PdfSchema.Proofs.Term.GroupTree
import PdfSchema.Proofs.Token.Sign

namespace PdfSchema

open Token

mutual

def Term.runs : Term → List (List Term)
  | .leaf _ => []
  | .call _ args => args :: Formula.innerRuns args
  | .paren body => body :: Formula.innerRuns body
  | .bracket body => body :: Formula.innerRuns body

def Formula.innerRuns : List Term → List (List Term)
  | [] => []
  | t :: ts => t.runs ++ Formula.innerRuns ts

end

/-- The formula, and the runs of terms inside its groups at any depth. -/
def Formula.runs (f : Formula) : List (List Term) := f :: Formula.innerRuns f

theorem Formula.innerRuns_eq_flatMap (f : Formula) : innerRuns f = f.flatMap Term.runs :=
  eq_flatMap_of_cons rfl (fun _ _ ↦ rfl) f

namespace Opening

variable {o : Opening} {body : List Term}

theorem render_group (o : Opening) (body : List Term) :
    (o.group body).render = o.token.raw ++ Formula.render body ++ o.closingToken.raw := by
  cases o <;> rfl

theorem runs_group (o : Opening) (body : List Term) :
    (o.group body).runs = body :: Formula.innerRuns body := by
  cases o <;> rfl

theorem leaves_subset_group (o : Opening) (body : List Term) :
    Formula.leaves body ⊆ (o.group body).leaves := by
  cases o with
  | call name => exact List.subset_cons_self _ _
  | paren | bracket => exact List.Subset.refl _

theorem isOperator_group (o : Opening) (body : List Term) : (o.group body).isOperator = false := by
  cases o <;> rfl

theorem isOpen_token (o : Opening) : o.token.kind.isOpen = true := by cases o <;> rfl

theorem readAlone_closingToken (o : Opening) : o.closingToken.ReadAlone := by
  have hparen : closeParen.ReadAlone := ⟨by decide +kernel, by decide +kernel⟩
  have hbracket : closeBracket.ReadAlone := ⟨by decide +kernel, by decide +kernel⟩
  cases o with
  | call name | paren => exact hparen
  | bracket => exact hbracket

theorem isSeparator_closingToken (o : Opening) (a : List Char) :
    ∀ c ∈ (o.closingToken.raw.toList ++ a).head?, IsSeparator c := by
  cases o <;> simp [closingToken, closeParen, closeBracket, isSeparator_of_mem]

end Opening

theorem Token.readAlone_comma : ReadAlone ⟨.comma, ","⟩ := ⟨by decide +kernel, by decide +kernel⟩

namespace Term

def Apart (t u : Term) : Prop := ¬ (t.isOperator = true ∧ u.isOperator = true)

inductive Legible : Term → Prop
  | leaf {t : Token} (ht : t.ReadAlone) (hk : t.kind.isLeaf = true)
      (hsign : t.kind.isSign = t.kind.isOperator) : Legible (.leaf t)
  | group (o : Opening) {body : List Term} (ho : o.token.ReadAlone) (hbody : body.IsChain Apart)
      (h : ∀ t ∈ body, Legible t) : Legible (o.group body)

def EndsBefore (t : Term) (a : List Char) : Prop :=
  ∀ c ∈ a.head?, IsSeparator c ∨ ¬ (t.isOperator = true ↔ c ∈ signs)

/-- Where the term is rendered in front of `a`, its tokens are read, with some commas. -/
def ReadBefore (t : Term) (a : List Char) : Prop :=
  ∃ us, Reads t.render.toList us a ∧ withoutCommas us = t.tokens

variable {t : Term} {a : List Char}

theorem Legible.head (h : t.Legible) :
    ∃ c s, t.render.toList = c :: s ∧ (t.isOperator = true ↔ c ∈ signs) := by
  cases h with
  | @leaf t ht hk hsign =>
    obtain ⟨c, w, hr, hc, -⟩ := Kind.shapes_of_spells (spells_of_first? ht.first)
    refine ⟨c, w, hr, ?_⟩
    rw [← Kind.isSign_iff_of_starts hc, hsign]
    rfl
  | @group o body =>
    rw [o.isOperator_group, o.render_group]
    cases o with
    | call name => exact ⟨'f', _, by simp [Opening.token, functionHead]; rfl, by decide⟩
    | paren => exact ⟨'(', _, by simp [Opening.token, openParen]; rfl, by decide⟩
    | bracket => exact ⟨'[', _, by simp [Opening.token, openBracket]; rfl, by decide⟩

end Term

namespace Formula

open Term

variable {f : List Term} {a : List Char}

theorem readBefore_after (hf : ∀ t ∈ f, t.Legible)
    (ih : ∀ t ∈ f, ∀ a, t.EndsBefore a → t.ReadBefore a)
    (ha : ∀ c ∈ a.head?, IsSeparator c) {before : Term} (hc : (before :: f).IsChain Apart) :
    before.EndsBefore ((renderAfter before f).toList ++ a) ∧
      ∃ us, Reads (renderAfter before f).toList us a ∧ withoutCommas us = tokens f := by
  induction f generalizing before with
  | nil => exact ⟨fun c hc ↦ .inl (ha c hc), [], .nil a, rfl⟩
  | cons t f ihf =>
    obtain ⟨ht, hf⟩ := List.forall_mem_cons.1 hf
    obtain ⟨iht, ih⟩ := List.forall_mem_cons.1 ih
    obtain ⟨hbefore, hc⟩ := List.isChain_cons_cons.1 hc
    obtain ⟨hend, us, hus, hu⟩ := ihf hf ih hc
    obtain ⟨vs, hvs, hv⟩ := iht _ hend
    have hread : Reads (t.render.toList ++ (renderAfter t f).toList) (vs ++ us) a :=
      hvs.append rfl hus
    have htokens : withoutCommas (vs ++ us) = tokens (t :: f) := by
      rw [withoutCommas, List.filter_append, tokens]
      exact congrArg₂ _ hv hu
    by_cases hop : (before.isOperator || t.isOperator) = true
    · -- One of the two terms is an operator, so `t` starts with a sign if `before` is none.
      have htext : (renderAfter before (t :: f)).toList =
          t.render.toList ++ (renderAfter t f).toList := by simp [renderAfter, hop]
      obtain ⟨c, s, hhead, hsign⟩ := ht.head
      rw [htext]
      refine ⟨?_, vs ++ us, hread, htokens⟩
      rw [hhead]
      intro c' hc'
      obtain rfl : c = c' := by simpa using hc'
      right
      rw [← hsign]
      simp only [Apart] at hbefore
      simp only [Bool.or_eq_true] at hop
      tauto
    · have htext : (renderAfter before (t :: f)).toList =
          ',' :: (t.render.toList ++ (renderAfter t f).toList) := by simp [renderAfter, hop]
      rw [htext]
      refine ⟨?_, ⟨.comma, ","⟩ :: (vs ++ us), readAlone_comma.reads_append rfl hread, ?_⟩
      · intro c hc
        obtain rfl : ',' = c := by simpa using hc
        exact .inl (isSeparator_of_mem (by simp))
      · rw [← htokens]
        exact List.filter_cons_of_neg (by simp)

theorem exists_reads (hf : ∀ t ∈ f, t.Legible)
    (ih : ∀ t ∈ f, ∀ a, t.EndsBefore a → t.ReadBefore a) (hc : f.IsChain Apart)
    (ha : ∀ c ∈ a.head?, IsSeparator c) :
    ∃ us, Reads (render f).toList us a ∧ withoutCommas us = tokens f := by
  cases f with
  | nil => exact ⟨[], .nil a, rfl⟩
  | cons t f =>
    obtain ⟨iht, ih⟩ := List.forall_mem_cons.1 ih
    obtain ⟨hend, us, hus, hu⟩ :=
      readBefore_after (fun u hu ↦ hf u (List.mem_cons_of_mem t hu)) ih ha hc
    obtain ⟨vs, hvs, hv⟩ := iht _ hend
    refine ⟨vs ++ us, ?_, ?_⟩
    · rw [render, String.toList_append]
      exact hvs.append rfl hus
    · rw [withoutCommas, List.filter_append, tokens]
      exact congrArg₂ _ hv hu

end Formula

theorem Term.Legible.readBefore {t : Term} (h : t.Legible) (a : List Char) (ha : t.EndsBefore a) :
    t.ReadBefore a := by
  induction h generalizing a with
  | @leaf t ht hk hsign =>
    refine ⟨[t], ht.reads fun c hc ↦ ?_, ?_⟩
    · rw [hsign]
      exact ha c hc
    · refine List.filter_cons_of_pos ?_
      cases hc : t.kind <;> simp_all [Kind.isLeaf]
  | @group o body ho hbody hterms ih =>
    have hclose : Reads o.closingToken.raw.toList [o.closingToken] a := by
      refine o.readAlone_closingToken.reads fun c hc ↦ ?_
      have hc := ha c hc
      rw [o.isOperator_group] at hc
      cases o <;> exact hc
    obtain ⟨us, hus, hu⟩ := Formula.exists_reads hterms ih hbody (o.isSeparator_closingToken a)
    refine ⟨o.token :: (us ++ [o.closingToken]), ?_, ?_⟩
    · rw [o.render_group, String.toList_append, String.toList_append, List.append_assoc]
      exact ho.reads_append o.isOpen_token (hus.append rfl hclose)
    · rw [o.tokens_group, ← hu]
      cases o <;> simp [withoutCommas, Opening.token, Opening.closingToken, functionHead,
        openParen, openBracket, closeParen, closeBracket]

theorem Term.Legible.isPlain {t : Term} (h : t.Legible) : t.IsPlain := by
  induction h with
  | leaf _ hk _ => exact .leaf hk
  | group o _ _ _ ih => exact .group o ih

/-- What is nested from tokens that are read is legible, if no operator runs into its neighbours. -/
theorem Term.IsPlain.legible {t : Term} (h : t.IsPlain) (halone : ∀ u ∈ t.tokens, u.ReadAlone)
    (hleaves : ∀ u ∈ t.leaves, u.kind ≠ .modulo ∧ u.kind ≠ .minus)
    (hruns : ∀ run ∈ t.runs, run.IsChain Apart) : t.Legible := by
  induction h with
  | @leaf t ht =>
    have hread : t.ReadAlone := halone t (List.mem_singleton_self t)
    obtain ⟨hmodulo, hminus⟩ := hleaves t (List.mem_singleton_self t)
    exact .leaf hread ht (Kind.isSign_eq_isOperator hmodulo hminus hread.kind_ne_times)
  | @group o body _ ih =>
    rw [o.tokens_group] at halone
    rw [o.runs_group] at hruns
    obtain ⟨hrun, hruns⟩ := List.forall_mem_cons.1 hruns
    refine .group o (halone o.token List.mem_cons_self) hrun fun t ht ↦ ih t ht ?_ ?_ ?_
    · intro u hu
      apply halone
      rw [Formula.tokens_eq_flatMap]
      exact List.mem_cons_of_mem _ (List.mem_append_left _ (List.mem_flatMap.2 ⟨t, ht, hu⟩))
    · intro u hu
      apply hleaves
      apply o.leaves_subset_group
      rw [Formula.leaves_eq_flatMap]
      exact List.mem_flatMap.2 ⟨t, ht, hu⟩
    · intro run hr
      apply hruns
      rw [Formula.innerRuns_eq_flatMap]
      exact List.mem_flatMap.2 ⟨t, ht, hr⟩

namespace Formula

variable {s : String} {ts : List Token} {f : Formula}

theorem parse_eq_ok_iff : parse s = .ok f ↔ ∃ ts, scan s = .ok ts ∧ ofTokens ts = .ok f := by
  rw [parse]
  cases scan s with
  | error e => simp
  | ok ts => cases h : ofTokens ts <;> simp [h]

/-- What nesting does with the tokens of a formula, inside any groups and before any others. -/
theorem nestInside_of_ofTokens (h : ofTokens ts = .ok f) : (∀ t ∈ f, t.IsPlain) ∧
    (∀ outer done us, nestInside outer done (withoutCommas ts ++ us) =
      nestInside outer (f.reverse ++ done) us) ∧
    ((∀ t ∈ withoutCommas ts, t.IsCanonical) → tokens f = withoutCommas ts) := by
  have hcomma : ∀ t ∈ withoutCommas ts, t.kind ≠ .comma := fun t ht ↦ by
    simpa using (List.mem_filter.1 ht).2
  rw [← ofTokens_withoutCommas] at h
  obtain ⟨f', hplain, hnest, htokens⟩ := exists_of_wellNested (wellNested_of_ofTokens hcomma h)
  have hall := hnest [] [] []
  rw [List.append_nil, List.append_nil, nestInside, List.reverse_reverse] at hall
  obtain rfl : f = f' := Except.ok.inj (h.symm.trans hall)
  exact ⟨hplain, hnest, htokens⟩

theorem isPlain_of_parse (h : parse s = .ok f) : ∀ t ∈ f, t.IsPlain := by
  obtain ⟨ts, -, hnest⟩ := parse_eq_ok_iff.1 h
  exact (nestInside_of_ofTokens hnest).1

theorem readAlone_of_parse (h : parse s = .ok f) : ∀ t ∈ tokens f, t.ReadAlone := by
  obtain ⟨ts, hscan, hnest⟩ := parse_eq_ok_iff.1 h
  have hreads := scan_eq_ok_iff.1 hscan
  have htokens : tokens f = withoutCommas ts := (nestInside_of_ofTokens hnest).2.2 fun t ht ↦
    isCanonical_of_spells (hreads.spells (List.mem_filter.1 ht).1)
  intro t ht
  rw [htokens] at ht
  exact hreads.readAlone (List.mem_filter.1 ht).1

theorem parse_render_of_legible (hf : ∀ t ∈ f, t.Legible) (hrun : f.IsChain Term.Apart) :
    parse (render f) = .ok f := by
  obtain ⟨us, hus, hu⟩ := exists_reads (a := []) hf (fun t ht ↦ (hf t ht).readBefore) hrun (by simp)
  refine parse_eq_ok_iff.2 ⟨us, scan_eq_ok_iff.2 hus, ?_⟩
  rw [← ofTokens_withoutCommas, hu, ofTokens_tokens fun t ht ↦ (hf t ht).isPlain]

/-- Reading a rendered formula gives the formula back, unless two operators stand side by side in it
or one of them is `mod` or `-`. -/
theorem parse_render (h : parse s = .ok f)
    (hleaves : ∀ t ∈ leaves f, t.kind ≠ .modulo ∧ t.kind ≠ .minus)
    (hruns : ∀ run ∈ f.runs,
      run.IsChain fun t u ↦ ¬ (t.isOperator = true ∧ u.isOperator = true)) :
    parse (render f) = .ok f := by
  obtain ⟨hrun, hruns⟩ := List.forall_mem_cons.1 hruns
  have halone := readAlone_of_parse h
  rw [tokens_eq_flatMap] at halone
  rw [leaves_eq_flatMap] at hleaves
  rw [innerRuns_eq_flatMap] at hruns
  have hlegible : ∀ t ∈ f, t.Legible := fun t ht ↦ (isPlain_of_parse h t ht).legible
    (fun u hu ↦ halone u (List.mem_flatMap.2 ⟨t, ht, hu⟩))
    (fun u hu ↦ hleaves u (List.mem_flatMap.2 ⟨t, ht, hu⟩))
    (fun run hr ↦ hruns run (List.mem_flatMap.2 ⟨t, ht, hr⟩))
  exact parse_render_of_legible hlegible hrun

theorem parse_render_comparison : ∃ f,
    parse "fn:Eval((@a > -1) && fn:BitSet(3) [x,, RD::@0])" = .ok f ∧
      render f = "fn:Eval((@a>-1)&&fn:BitSet(3),[x,RD::,@0])" ∧ parse (render f) = .ok f := by
  have hscan : scan "fn:Eval((@a > -1) && fn:BitSet(3) [x,, RD::@0])" = .ok
      [functionHead "Eval", openParen, ⟨.keyValue, "@a"⟩, ⟨.gt, ">"⟩, ⟨.integer, "-1"⟩, closeParen,
        ⟨.and, "&&"⟩, functionHead "BitSet", ⟨.integer, "3"⟩, closeParen, openBracket,
        ⟨.keyName, "x"⟩, ⟨.comma, ","⟩, ⟨.comma, ","⟩, ⟨.keyPath, "RD::"⟩, ⟨.keyValue, "@0"⟩,
        closeBracket, closeParen] := by decide +kernel
  have hparse := parse_eq_ok_iff.2 ⟨_, hscan, rfl⟩
  refine ⟨_, hparse, by decide +kernel, parse_render hparse ?_ ?_⟩
  · decide +kernel
  · decide +kernel

end Formula

end PdfSchema
