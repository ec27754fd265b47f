import PdfSchema.Proofs.Term.WellNested
import PdfSchema.Proofs.Token.Reading

namespace PdfSchema

open Token

inductive GroupKind where
  | root
  | call
  | args
  | paren
  | bracket
  deriving DecidableEq, Repr

namespace GroupKind

def opening : GroupKind → List Token
  | paren => [openParen]
  | bracket => [openBracket]
  | root | call | args => []

def closing : GroupKind → List Token
  | args | paren => [closeParen]
  | bracket => [closeBracket]
  | root | call => []

end GroupKind

inductive GroupTree where
  | leaf (token : Token)
  | group (kind : GroupKind) (children : List GroupTree)

namespace GroupTree

mutual

def tokens : GroupTree → List Token
  | leaf t => [t]
  | group kind children => kind.opening ++ tokensOfAll children ++ kind.closing

def tokensOfAll : List GroupTree → List Token
  | [] => []
  | c :: cs => c.tokens ++ tokensOfAll cs

end

/-- The trees inside a root group. There are no roots among them, arguments stand in calls only,
after the head, and all other leaves are no commas and open or close nothing. -/
inductive IsTerm : GroupTree → Prop
  | leaf {t : Token} (ht : t.kind.isLeaf = true) : IsTerm (leaf t)
  | call (name : String) {cs : List GroupTree} (h : ∀ c ∈ cs, IsTerm c) :
      IsTerm (group .call [leaf (functionHead name), group .args cs])
  | paren {cs : List GroupTree} (h : ∀ c ∈ cs, IsTerm c) : IsTerm (group .paren cs)
  | bracket {cs : List GroupTree} (h : ∀ c ∈ cs, IsTerm c) : IsTerm (group .bracket cs)

def IsFormula (tree : GroupTree) : Prop := ∃ cs, tree = group .root cs ∧ ∀ c ∈ cs, IsTerm c

end GroupTree

mutual

def Term.tree : Term → GroupTree
  | .leaf t => .leaf t
  | .call name args =>
    .group .call [.leaf (functionHead name), .group .args (Formula.trees args)]
  | .paren body => .group .paren (Formula.trees body)
  | .bracket body => .group .bracket (Formula.trees body)

def Formula.trees : List Term → List GroupTree
  | [] => []
  | t :: ts => t.tree :: Formula.trees ts

end

def Formula.tree (f : Formula) : GroupTree := .group .root (Formula.trees f)

mutual

theorem Term.tokens_tree (t : Term) : t.tree.tokens = t.tokens := by
  cases t with
  | leaf t => rfl
  | call name args =>
    simp [Term.tree, Term.tokens, GroupTree.tokens, GroupTree.tokensOfAll, GroupKind.opening,
      GroupKind.closing, Formula.tokens_trees args]
  | paren body | bracket body =>
    simp [Term.tree, Term.tokens, GroupTree.tokens, GroupKind.opening, GroupKind.closing,
      Formula.tokens_trees body]

theorem Formula.tokens_trees (f : List Term) :
    GroupTree.tokensOfAll (Formula.trees f) = Formula.tokens f := by
  cases f with
  | nil => rfl
  | cons t f =>
    rw [Formula.trees, GroupTree.tokensOfAll, Formula.tokens, t.tokens_tree,
      Formula.tokens_trees f]

end

namespace Formula

variable {f : Formula} {ts us : List Token}

theorem tokens_tree (f : Formula) : f.tree.tokens = Formula.tokens f := by
  rw [tree, GroupTree.tokens, tokens_trees, GroupKind.opening, GroupKind.closing,
    List.nil_append, List.append_nil]

theorem trees_eq_map (f : Formula) : trees f = f.map Term.tree := by
  induction f with
  | nil => rfl
  | cons t f ih => rw [trees, ih, List.map_cons]

theorem isTerm_of_mem_trees (h : ∀ t ∈ f, t.tree.IsTerm) : ∀ c ∈ trees f, c.IsTerm := by
  rw [trees_eq_map]
  exact List.forall_mem_map.2 h

end Formula

theorem Term.IsPlain.isTerm_tree {t : Term} (h : t.IsPlain) : t.tree.IsTerm := by
  induction h with
  | leaf ht => exact .leaf ht
  | @group o body _ ih =>
    have hbody := Formula.isTerm_of_mem_trees ih
    cases o with
    | call name => exact .call name hbody
    | paren => exact .paren hbody
    | bracket => exact .bracket hbody

theorem Formula.isFormula_tree {f : Formula} (h : ∀ t ∈ f, t.IsPlain) : f.tree.IsFormula :=
  ⟨_, rfl, isTerm_of_mem_trees fun t ht ↦ (h t ht).isTerm_tree⟩

namespace GroupTree

theorem exists_formula {cs : List GroupTree}
    (h : ∀ c ∈ cs, ∃ t : Term, t.IsPlain ∧ t.tree = c) :
    ∃ f : Formula, (∀ t ∈ f, t.IsPlain) ∧ Formula.trees f = cs := by
  induction cs with
  | nil => exact ⟨[], by simp, rfl⟩
  | cons c cs ih =>
    obtain ⟨t, ht, rfl⟩ := h c List.mem_cons_self
    obtain ⟨f, hf, rfl⟩ := ih fun d hd ↦ h d (List.mem_cons_of_mem _ hd)
    exact ⟨t :: f, List.forall_mem_cons.2 ⟨ht, hf⟩, rfl⟩

theorem IsTerm.exists_term {c : GroupTree} (h : c.IsTerm) :
    ∃ t : Term, t.IsPlain ∧ t.tree = c := by
  induction h with
  | @leaf t ht => exact ⟨.leaf t, .leaf ht, rfl⟩
  | call name _ ih =>
    obtain ⟨f, hf, rfl⟩ := exists_formula ih
    exact ⟨.call name f, .group (.call name) hf, rfl⟩
  | paren _ ih =>
    obtain ⟨f, hf, rfl⟩ := exists_formula ih
    exact ⟨.paren f, .group .paren hf, rfl⟩
  | bracket _ ih =>
    obtain ⟨f, hf, rfl⟩ := exists_formula ih
    exact ⟨.bracket f, .group .bracket hf, rfl⟩

theorem IsFormula.exists_tree {tree : GroupTree} (h : tree.IsFormula) :
    ∃ f : Formula, (∀ t ∈ f, t.IsPlain) ∧ f.tree = tree := by
  obtain ⟨cs, rfl, hcs⟩ := h
  obtain ⟨f, hf, rfl⟩ := exists_formula fun c hc ↦ (hcs c hc).exists_term
  exact ⟨f, hf, rfl⟩

end GroupTree

namespace Token

variable {t : Token} {ts : List Token}

theorem eq_functionHead (hk : t.kind = .functionHead) (h : t.kind.Spells t.raw.toList) :
    t = functionHead (String.ofList (t.raw.toList.drop 3).dropLast) := by
  obtain ⟨kind, raw⟩ := t
  subst hk
  obtain ⟨c, w, -, -, -, hr⟩ := h
  have hname : (raw.toList.drop 3).dropLast = c :: w := by
    rw [hr, List.drop_succ_cons, List.drop_succ_cons, List.drop_succ_cons, List.drop_zero,
      ← List.cons_append, List.dropLast_concat]
  rw [functionHead, Token.mk.injEq, ← String.toList_inj, hname, hr]
  simp

theorem isCanonical_of_spells (h : t.kind.Spells t.raw.toList) : t.IsCanonical := by
  have hsign {k : Kind} {text : String} (hk : t.kind = k) (ht : t.raw.toList = text.toList) :
      t = ⟨k, text⟩ := by
    rw [← hk, ← String.toList_inj.1 ht]
  refine ⟨fun o ho ↦ ?_, fun o ho ↦ ?_⟩
  · unfold Opening.ofToken? at ho
    split at ho
    case h_1 hk =>
      rw [functionName?, if_pos hk] at ho
      cases ho
      exact eq_functionHead hk h
    case h_2 hk | h_3 hk =>
      cases ho
      rw [hk] at h
      exact hsign hk h
    case h_4 => cases ho
  · rw [ho] at h
    cases o <;> exact hsign ho h

end Token

namespace Formula

/-- The tokens of a text are nested to a formula if and only if they are well nested without their
commas. Its tree is well formed and has just these tokens, as any well-formed tree is nested from
its own; a failure is due to the first token out of place, or else to the innermost open group. -/
theorem ofTokens_of_scan {s : String} {ts : List Token} (h : scan s = .ok ts) :
    ((∃ f, ofTokens ts = .ok f) ↔ WellNested (withoutCommas ts)) ∧
    (∀ f, ofTokens ts = .ok f → f.tree.IsFormula ∧ f.tree.tokens = withoutCommas ts) ∧
    (∀ tree : GroupTree, tree.IsFormula → (ofTokens tree.tokens).map Formula.tree = .ok tree) ∧
    (∀ close, ofTokens ts = .error (.unmatchedClose close) ↔
      ∃ t, OutOfPlace (withoutCommas ts) t [] ∧ t.raw = close) ∧
    (∀ o close, ofTokens ts = .error (.mismatchedClose o close) ↔
      ∃ t g groups, OutOfPlace (withoutCommas ts) t (g :: groups) ∧
        Opening.ofToken? g = some o ∧ t.raw = close) ∧
    ∀ o, ofTokens ts = .error (.unclosed o) ↔
      ∃ g groups, LeavesOpen (withoutCommas ts) (g :: groups) ∧ Opening.ofToken? g = some o := by
  have hcomma : ∀ t ∈ withoutCommas ts, t.kind ≠ .comma := fun t ht ↦ by
    simpa using (List.mem_filter.1 ht).2
  have hcanonical : ∀ t ∈ withoutCommas ts, t.IsCanonical := fun t ht ↦
    isCanonical_of_spells ((scan_eq_ok_iff.1 h).spells (List.mem_filter.1 ht).1)
  rw [← ofTokens_withoutCommas ts]
  refine ⟨⟨fun ⟨f, hf⟩ ↦ wellNested_of_ofTokens hcomma hf, fun hw ↦ ?_⟩, fun f hf ↦ ?_,
    fun tree htree ↦ ?_, fun close ↦ ofTokens_eq_unmatchedClose_iff hcomma,
    fun o close ↦ ofTokens_eq_mismatchedClose_iff hcomma,
    fun o ↦ ofTokens_eq_unclosed_iff hcomma⟩
  · obtain ⟨f, hf, -⟩ := ofTokens_of_wellNested hw
    exact ⟨f, hf⟩
  · obtain ⟨f', hf', hplain, htokens⟩ :=
      ofTokens_of_wellNested (wellNested_of_ofTokens hcomma hf)
    cases hf.symm.trans hf'
    exact ⟨isFormula_tree hplain, (tokens_tree f).trans (htokens hcanonical)⟩
  · obtain ⟨f, hplain, rfl⟩ := htree.exists_tree
    rw [tokens_tree, ofTokens_tokens hplain]
    rfl

theorem ofTokens_of_scan_brackets :
    (∃ ts f, scan "fn:Eval([@a,2])" = .ok ts ∧ ofTokens ts = .ok f ∧ f.tree.IsFormula ∧
      f.tree.tokens = withoutCommas ts) ∧
    ∃ ts t g groups, scan "fn:Eval([@a,2)" = .ok ts ∧
      OutOfPlace (withoutCommas ts) t (g :: groups) ∧ Opening.ofToken? g = some .bracket ∧
        t.raw = ")" := by
  have hclosed : scan "fn:Eval([@a,2])" = .ok [functionHead "Eval", openBracket,
    ⟨.keyValue, "@a"⟩, ⟨.comma, ","⟩, ⟨.integer, "2"⟩, closeBracket, closeParen] := by
    decide +kernel
  have hcrossed : scan "fn:Eval([@a,2)" = .ok [functionHead "Eval", openBracket,
    ⟨.keyValue, "@a"⟩, ⟨.comma, ","⟩, ⟨.integer, "2"⟩, closeParen] := by
    decide +kernel
  have hf := (ofTokens_of_scan hclosed).2.1 _ rfl
  have hp := ((ofTokens_of_scan hcrossed).2.2.2.2.1 .bracket ")").1 rfl
  obtain ⟨t, g, groups, hp⟩ := hp
  exact ⟨⟨_, _, hclosed, rfl, hf⟩, _, t, g, groups, hcrossed, hp⟩

end Formula

end PdfSchema
