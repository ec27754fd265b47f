import PdfSchema.Function.Check
import PdfSchema.Proofs.Function.Expression
import PdfSchema.Proofs.Term.Rendering

namespace PdfSchema

open Token

mutual

/-- What stands between the parentheses of a term, and between those inside them. Calls and brackets
are not looked into. -/
def Term.parens : Term → List (List Term)
  | .paren body => body :: Formula.parens body
  | .leaf _ | .call _ _ | .bracket _ => []

def Formula.parens : List Term → List (List Term)
  | [] => []
  | t :: ts => t.parens ++ Formula.parens ts

end

/-- Whether all parentheses among some terms, and inside one another, hold expressions. -/
def WellParenthesized (ts : List Term) : Prop :=
  ∀ body ∈ Formula.parens ts, isExpression body = true

instance (ts : List Term) : Decidable (WellParenthesized ts) :=
  inferInstanceAs (Decidable (∀ body ∈ Formula.parens ts, _))

section WellParenthesized

variable {t : Term} {ts us : List Term}

theorem wellParenthesized_nil : WellParenthesized [] := fun _ hb ↦ nomatch hb

theorem wellParenthesized_append :
    WellParenthesized (ts ++ us) ↔ WellParenthesized ts ∧ WellParenthesized us := by
  have hparens : Formula.parens (ts ++ us) = Formula.parens ts ++ Formula.parens us := by
    induction ts with
    | nil => rfl
    | cons t ts ih => rw [List.cons_append, Formula.parens, Formula.parens, ih, List.append_assoc]
  rw [WellParenthesized, hparens, List.forall_mem_append]
  rfl

theorem wellParenthesized_cons :
    WellParenthesized (t :: ts) ↔ WellParenthesized [t] ∧ WellParenthesized ts :=
  @wellParenthesized_append [t] ts

theorem wellParenthesized_leaves (tokens : List Token) :
    WellParenthesized (tokens.map Term.leaf) := by
  induction tokens with
  | nil => exact wellParenthesized_nil
  | cons t tokens ih => exact wellParenthesized_cons.2 ⟨wellParenthesized_nil, ih⟩

theorem wellParenthesized_leaf {token : Token} : WellParenthesized [.leaf token] :=
  wellParenthesized_leaves [token]

theorem wellParenthesized_paren {body : List Term} :
    WellParenthesized [.paren body] ↔ isExpression body = true ∧ WellParenthesized body := by
  simp [WellParenthesized, Formula.parens, Term.parens]

mutual

theorem Operand.wellParenthesized {o : List Term} : Operand o → WellParenthesized o
  | .value _ => wellParenthesized_leaf
  | @Operand.key path key _ _ => wellParenthesized_leaves [path, key]
  | .call _ _ | .bracket _ => wellParenthesized_nil
  | .paren h => wellParenthesized_paren.2 ⟨h.accepted, h.wellParenthesized⟩

theorem Expression.wellParenthesized {e : List Term} : Expression e → WellParenthesized e
  | .operand h => h.wellParenthesized
  | .operation ho _ he =>
    have htail := wellParenthesized_cons.2 ⟨wellParenthesized_leaf, he.wellParenthesized⟩
    wellParenthesized_append.2 ⟨ho.wellParenthesized, htail⟩

end

end WellParenthesized

section Arguments

variable {t : Term} {args rest : List Term}

theorem wellParenthesized_of_isExpression (h : isExpression args = true) :
    WellParenthesized args := (isExpression_iff.1 h).wellParenthesized

theorem wellParenthesized_of_isOperand (h : t.isOperand = true) : WellParenthesized [t] :=
  wellParenthesized_of_isExpression ((isExpression_singleton t).trans h)

theorem wellParenthesized_of_leaf? {token : Token} (h : t.leaf? = some token) :
    WellParenthesized [t] := by
  cases t with
  | leaf token => exact wellParenthesized_leaf
  | call | paren | bracket => cases h

theorem wellParenthesized_of_isVersion (h : t.isVersion = true) : WellParenthesized [t] := by
  obtain ⟨token, htoken, -⟩ := (Option.any_eq_true _ _).1 h
  exact wellParenthesized_of_leaf? htoken

theorem wellParenthesized_of_bit? (h : t.bit?.isSome = true) : WellParenthesized [t] := by
  obtain ⟨n, hn⟩ := Option.isSome_iff_exists.1 h
  obtain ⟨token, htoken, -⟩ := Option.bind_eq_some_iff.1 (Option.filter_eq_some_iff.1 hn).1
  exact wellParenthesized_of_leaf? htoken

theorem isLeafOf_iff {k : Kind} :
    t.isLeafOf k = true ↔ ∃ token, t = .leaf token ∧ token.kind = k := by
  cases t <;> simp [Term.isLeafOf, Term.kind?, Term.leaf?]

theorem wellParenthesized_of_isSingleOperand (h : isSingleOperand args = true) :
    WellParenthesized args := by
  unfold isSingleOperand at h
  split at h
  · exact wellParenthesized_of_isOperand h
  · obtain ⟨hpath, hkey⟩ := Bool.and_eq_true_iff.1 h
    obtain ⟨path, rfl, -⟩ := isLeafOf_iff.1 hpath
    obtain ⟨key, rfl, -⟩ := Term.any_kind?_iff.1 hkey
    exact wellParenthesized_leaves [path, key]
  · cases h

theorem exists_of_afterKeyReference? (h : afterKeyReference? args = some rest) :
    ∃ tokens : List Token, args = tokens.map Term.leaf ++ rest := by
  cases args with
  | nil => cases h
  | cons first args =>
    by_cases hpath : first.isLeafOf .keyPath = true
    · obtain ⟨path, rfl, -⟩ := isLeafOf_iff.1 hpath
      cases args with
      | nil => simp [afterKeyReference?, hpath] at h
      | cons key args =>
        obtain ⟨hkey, rfl⟩ := by simpa [afterKeyReference?, hpath] using h
        obtain ⟨key, rfl, -⟩ := Term.any_kind?_iff.1 hkey
        exact ⟨[path, key], rfl⟩
    · obtain ⟨hkey, rfl⟩ := by simpa [afterKeyReference?, hpath] using h
      obtain ⟨key, rfl, -⟩ := Term.any_kind?_iff.1 hkey
      exact ⟨[key], rfl⟩

theorem wellParenthesized_of_afterKeyReference? (h : afterKeyReference? args = some rest)
    (hrest : WellParenthesized rest) : WellParenthesized args := by
  obtain ⟨tokens, rfl⟩ := exists_of_afterKeyReference? h
  exact wellParenthesized_append.2 ⟨wellParenthesized_leaves tokens, hrest⟩

/-- A single group is taken for a condition whatever it holds. -/
theorem wellParenthesized_of_isCondition (h : isCondition args = true) :
    WellParenthesized args ∨ ∃ body, args = [.paren body] := by
  unfold isCondition at h
  split at h
  · rename_i left op right
    split at h
    · rename_i hop
      obtain ⟨op, rfl, -⟩ := Term.any_kind?_iff.1 hop
      obtain ⟨hleft, hright⟩ := Bool.and_eq_true_iff.1 h
      exact .inl (wellParenthesized_cons.2 ⟨wellParenthesized_of_isSingleOperand hleft,
        wellParenthesized_cons.2
          ⟨wellParenthesized_leaf, wellParenthesized_of_isSingleOperand hright⟩⟩)
    · exact .inl (wellParenthesized_of_isExpression (Bool.and_eq_true_iff.1 h).1)
  · rename_i t
    cases t with
    | paren body => exact .inr ⟨body, rfl⟩
    | call name args => exact .inl wellParenthesized_nil
    | leaf | bracket => cases h
  · obtain ⟨⟨-, h⟩, -⟩ := by simpa only [Bool.and_eq_true] using h
    exact .inl (wellParenthesized_of_isExpression h)

/-- The arguments that a shape accepts without looking into the parentheses among them: a group for
a condition, and a value. -/
def Unchecked (shape : Shape) (args : List Term) : Prop :=
  shape = .requiredValue ∧ ∃ body value, args = [.paren body, value] ∧ value.isOperand = true

theorem wellParenthesized_of_optional (h : (args.isEmpty || isExpression args) = true) :
    WellParenthesized args := by
  rcases Bool.or_eq_true_iff.1 h with h | h
  · rw [List.isEmpty_iff.1 h]
    exact wellParenthesized_nil
  · exact wellParenthesized_of_isExpression h

theorem wellParenthesized_of_reference {p : List Term → Bool}
    (hp : ∀ {ts}, p ts = true → WellParenthesized ts) (h : (afterKeyReference? args).any p = true) :
    WellParenthesized args := by
  obtain ⟨rest, hrest, h⟩ := (Option.any_eq_true _ _).1 h
  exact wellParenthesized_of_afterKeyReference? hrest (hp h)

theorem Shape.wellParenthesized_of_accepts {shape : Shape} (h : shape.accepts args = true) :
    WellParenthesized args ∨ Unchecked shape args := by
  have hempty {ts : List Term} (h : ts.isEmpty = true) : WellParenthesized ts := by
    rw [List.isEmpty_iff.1 h]
    exact wellParenthesized_nil
  cases shape with
  | nothing => exact .inl (hempty h)
  | keyReference => exact .inl (wellParenthesized_of_reference hempty h)
  | versioned =>
    cases args with
    | nil => cases h
    | cons version rest =>
      obtain ⟨hversion, hrest⟩ := Bool.and_eq_true_iff.1 h
      exact .inl (wellParenthesized_cons.2
        ⟨wellParenthesized_of_isVersion hversion, wellParenthesized_of_optional hrest⟩)
  | expression => exact .inl (wellParenthesized_of_isExpression h)
  | optionalExpression => exact .inl (wellParenthesized_of_optional h)
  | bit =>
    simp only [accepts] at h
    split at h
    · exact .inl (wellParenthesized_of_bit? h)
    · cases h
  | bitRange =>
    simp only [accepts] at h
    split at h
    · rename_i low high
      split at h
      · rename_i hlow hhigh
        exact .inl (wellParenthesized_cons.2 ⟨wellParenthesized_of_bit? (hlow ▸ rfl),
          wellParenthesized_of_bit? (hhigh ▸ rfl)⟩)
      · cases h
    · cases h
  | arrayLength =>
    rcases Bool.or_eq_true_iff.1 h with h | h
    · split at h
      · rename_i t _
        cases t with
        | call name args => exact .inl wellParenthesized_nil
        | leaf | paren | bracket => cases h
      · cases h
    · exact .inl (wellParenthesized_of_reference hempty h)
  | sortStep | pageProperty =>
    simp only [accepts] at h
    split at h
    · rename_i last hlast
      obtain ⟨last, rfl, -⟩ := isLeafOf_iff.1 h
      exact .inl (wellParenthesized_of_afterKeyReference? hlast wellParenthesized_leaf)
    · cases h
  | extension =>
    cases args with
    | nil => cases h
    | cons name rest =>
      obtain ⟨hname, hrest⟩ := Bool.and_eq_true_iff.1 h
      obtain ⟨name, rfl, -⟩ := isLeafOf_iff.1 hname
      exact .inl (wellParenthesized_cons.2
        ⟨wellParenthesized_leaf, wellParenthesized_of_optional hrest⟩)
  | defaultValue =>
    simp only [accepts] at h
    split at h
    · rename_i value hvalue
      obtain ⟨condition, rfl⟩ := List.getLast?_eq_some_iff.1 hvalue
      rw [List.dropLast_concat] at h
      obtain ⟨h, hcondition⟩ := Bool.and_eq_true_iff.1 h
      exact .inl (wellParenthesized_append.2 ⟨wellParenthesized_of_isExpression hcondition,
        wellParenthesized_of_isSingleOperand (Bool.and_eq_true_iff.1 h).2⟩)
    · cases h
  | presence =>
    rcases Bool.or_eq_true_iff.1 h with h | h
    · exact .inl (wellParenthesized_of_isExpression h)
    · exact .inl (wellParenthesized_of_reference wellParenthesized_of_isExpression h)
  | requiredValue =>
    simp only [accepts] at h
    split at h
    · rename_i value hvalue
      obtain ⟨condition, rfl⟩ := List.getLast?_eq_some_iff.1 hvalue
      rw [List.dropLast_concat] at h
      obtain ⟨hoperand, hcondition⟩ := Bool.and_eq_true_iff.1 h
      rcases wellParenthesized_of_isCondition hcondition with hcondition | ⟨body, rfl⟩
      · exact .inl (wellParenthesized_append.2
          ⟨hcondition, wellParenthesized_of_isSingleOperand hoperand⟩)
      · exact .inr ⟨rfl, body, value, rfl, hoperand⟩
    · cases h
  | contains => exact .inl (wellParenthesized_of_reference wellParenthesized_of_isSingleOperand h)

end Arguments

theorem checkCall_eq_none_iff {name : String} {args : List Term} : checkCall name args = none ↔
    ∃ shape, Function.shape? name = some shape ∧ shape.accepts args = true := by
  unfold checkCall
  cases Function.shape? name with
  | none => simp
  | some shape => simp

theorem eq_of_shape?_eq_requiredValue {name : String}
    (h : Function.shape? name = some .requiredValue) : name = "RequiredValue" := by
  obtain ⟨before, after, htable, -⟩ := List.lookup_eq_some_iff.1 h
  have hmem : (name, Shape.requiredValue) ∈ Function.table := by simp [htable]
  have hall : ∀ p ∈ Function.table, p.2 = .requiredValue → p.1 = "RequiredValue" := by decide
  exact hall _ hmem rfl

/-- No parentheses among the arguments of a call that passes the check hold anything but an
expression, unless the call requires a value under a single group, which may hold anything. -/
theorem wellParenthesized_or_unchecked {name : String} {args : List Term}
    (h : checkCall name args = none) :
    WellParenthesized args ∨ name = "RequiredValue" ∧ ∃ body value, args = [.paren body, value] ∧
      WellParenthesized [value] ∧ ∀ body', checkCall name [.paren body', value] = none := by
  obtain ⟨shape, hshape, haccepts⟩ := checkCall_eq_none_iff.1 h
  rcases Shape.wellParenthesized_of_accepts haccepts with h | ⟨rfl, body, value, rfl, hvalue⟩
  · exact .inl h
  · refine .inr ⟨eq_of_shape?_eq_requiredValue hshape, body, value, rfl,
      wellParenthesized_of_isOperand hvalue, fun body' ↦ ?_⟩
    refine checkCall_eq_none_iff.2 ⟨_, hshape, ?_⟩
    simp [Shape.accepts, isSingleOperand, isCondition, Term.isGrouped, hvalue]

/-- The parentheses inside parentheses of a chain of conditions are looked into. -/
theorem conditionChain_wellParenthesized : ∃ args,
    Formula.parse "fn:RequiredValue(((@A==1)) || fn:Not(X),0)" =
        .ok [.call "RequiredValue" args] ∧
      checkCall "RequiredValue" args = none ∧ (Formula.parens args).length = 2 ∧
      WellParenthesized args := by
  have hscan : scan "fn:RequiredValue(((@A==1)) || fn:Not(X),0)" = .ok
      [functionHead "RequiredValue", openParen, openParen, ⟨.keyValue, "@A"⟩, ⟨.eq, "=="⟩,
        ⟨.integer, "1"⟩, closeParen, closeParen, ⟨.or, "||"⟩, functionHead "Not", ⟨.keyName, "X"⟩,
        closeParen, ⟨.comma, ","⟩, ⟨.integer, "0"⟩, closeParen] := by decide +kernel
  have hcheck : checkCall "RequiredValue"
      [.paren [.paren [.leaf ⟨.keyValue, "@A"⟩, .leaf ⟨.eq, "=="⟩, .leaf ⟨.integer, "1"⟩]],
        .leaf ⟨.or, "||"⟩, .call "Not" [.leaf ⟨.keyName, "X"⟩], .leaf ⟨.integer, "0"⟩] = none := by
    decide +kernel
  refine ⟨_, Formula.parse_eq_ok_iff.2 ⟨_, hscan, rfl⟩, hcheck, by decide +kernel, ?_⟩
  rcases wellParenthesized_or_unchecked hcheck with h | ⟨-, body, value, h, -⟩
  · exact h
  · cases h

/-- Two operands side by side in parentheses are no expression, and as a condition they pass. -/
theorem requiredValue_hides_run : ∃ args,
    Formula.parse "fn:RequiredValue((@A @B),1)" = .ok [.call "RequiredValue" args] ∧
      checkCall "RequiredValue" args = none ∧ ¬ WellParenthesized args := by
  have hscan : scan "fn:RequiredValue((@A @B),1)" = .ok
      [functionHead "RequiredValue", openParen, ⟨.keyValue, "@A"⟩, ⟨.keyValue, "@B"⟩, closeParen,
        ⟨.comma, ","⟩, ⟨.integer, "1"⟩, closeParen] := by decide +kernel
  refine ⟨_, Formula.parse_eq_ok_iff.2 ⟨_, hscan, rfl⟩, ?_, ?_⟩
  · decide +kernel
  · decide +kernel

end PdfSchema
