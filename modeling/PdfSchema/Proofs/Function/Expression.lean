import Mathlib.Logic.Function.Iterate
import PdfSchema.Function.Shape

namespace PdfSchema

open Token

def valueKinds : List Kind :=
  [.keyName, .keyValue, .integer, .real, .trueWord, .falseWord, .quoted]

def keyKinds : List Kind := [.keyName, .keyValue, .integer]

theorem isValue_iff {k : Kind} : k.isValue = true ↔ k ∈ valueKinds := by
  cases k <;> decide

theorem isKeyReference_iff {k : Kind} : k.isKeyReference = true ↔ k ∈ keyKinds := by
  cases k <;> decide

mutual

inductive Operand : List Term → Prop
  | value {t : Token} (h : t.kind ∈ valueKinds) : Operand [.leaf t]
  | key {path key : Token} (hpath : path.kind = .keyPath) (hkey : key.kind ∈ keyKinds) :
      Operand [.leaf path, .leaf key]
  | call (name : String) (args : List Term) : Operand [.call name args]
  | bracket (body : List Term) : Operand [.bracket body]
  | paren {body : List Term} (h : Expression body) : Operand [.paren body]

/-- Operands with an operator between each two of them. -/
inductive Expression : List Term → Prop
  | operand {o : List Term} (h : Operand o) : Expression o
  | operation {o e : List Term} {op : Token} (ho : Operand o) (hop : op.kind.isOperator = true)
      (he : Expression e) : Expression (o ++ .leaf op :: e)

end

inductive Continuation : List Term → Prop
  | nil : Continuation []
  | operation {e : List Term} {op : Token} (hop : op.kind.isOperator = true) (he : Expression e) :
      Continuation (.leaf op :: e)

theorem Operand.append {o rest : List Term} (ho : Operand o) (h : Continuation rest) :
    Expression (o ++ rest) := by
  cases h with
  | nil => rw [List.append_nil]; exact .operand ho
  | operation hop he => exact .operation ho hop he

namespace Term

theorem any_kind?_iff {t : Term} {p : Kind → Bool} :
    t.kind?.any p = true ↔ ∃ token, t = .leaf token ∧ p token.kind = true := by
  cases t <;> simp [kind?, leaf?]

theorem isOperator_iff {t : Term} :
    t.isOperator = true ↔ ∃ op, t = .leaf op ∧ op.kind.isOperator = true := any_kind?_iff

end Term

section Equations

variable {t path : Token} {rest : List Term}

theorem isExpression_leaf (h : t.kind ≠ .keyPath) :
    isExpression (.leaf t :: rest) = (t.kind.isValue && continuesExpression rest) := by
  cases rest <;> simp only [isExpression, if_neg h]

theorem isExpression_value (h : t.kind.isValue = true) :
    isExpression (.leaf t :: rest) = continuesExpression rest := by
  have hpath : t.kind ≠ .keyPath := fun hk ↦ absurd h (by rw [hk]; decide)
  rw [isExpression_leaf hpath, h, Bool.true_and]

theorem isExpression_path (h : path.kind = .keyPath) : isExpression [.leaf path] = false := by
  simp only [isExpression, if_pos h]

theorem isExpression_path_cons (h : path.kind = .keyPath) (key : Term) :
    isExpression (.leaf path :: key :: rest) =
      (key.kind?.any Kind.isKeyReference && continuesExpression rest) := by
  simp only [isExpression, if_pos h]

theorem isExpression_call (name : String) (args : List Term) :
    isExpression (.call name args :: rest) = continuesExpression rest := rfl

theorem isExpression_bracket (body : List Term) :
    isExpression (.bracket body :: rest) = continuesExpression rest := rfl

theorem isExpression_paren (body : List Term) :
    isExpression (.paren body :: rest) = (isExpression body && continuesExpression rest) := rfl

theorem isExpression_singleton (t : Term) : isExpression [t] = t.isOperand := by
  cases t with
  | leaf token =>
    by_cases hpath : token.kind = .keyPath
    · rw [isExpression_path hpath, Term.isOperand, hpath]
      rfl
    · rw [isExpression_leaf hpath, continuesExpression, Bool.and_true, Term.isOperand]
  | call name args => rw [isExpression_call, continuesExpression, Term.isOperand]
  | bracket body => rw [isExpression_bracket, continuesExpression, Term.isOperand]
  | paren body => rw [isExpression_paren, continuesExpression, Bool.and_true, Term.isOperand]

end Equations

mutual

theorem Operand.isExpression_append {o : List Term} (rest : List Term) :
    Operand o → isExpression (o ++ rest) = continuesExpression rest
  | .value h => isExpression_value (isValue_iff.2 h)
  | @Operand.key path key hpath hkey => by
    have hkey : (Term.leaf key).kind?.any Kind.isKeyReference = true :=
      Term.any_kind?_iff.2 ⟨key, rfl, isKeyReference_iff.2 hkey⟩
    rw [List.cons_append, List.singleton_append, isExpression_path_cons hpath, hkey, Bool.true_and]
  | .call name args => isExpression_call name args
  | .bracket body => isExpression_bracket body
  | .paren h => by
    rw [List.singleton_append, isExpression_paren, h.accepted, Bool.true_and]

theorem Expression.accepted {e : List Term} : Expression e → isExpression e = true
  | .operand h => by
    rw [← List.append_nil e, h.isExpression_append, continuesExpression]
  | .operation ho hop he => by
    rw [ho.isExpression_append, continuesExpression, he.accepted, Bool.and_true]
    exact hop

end

mutual

theorem expression_of_isExpression : ∀ args : List Term, isExpression args = true → Expression args
  | [], h => by rw [isExpression] at h; cases h
  | .leaf t :: rest, h => by
    by_cases hpath : t.kind = .keyPath
    · match rest, h with
      | [], h => rw [isExpression_path hpath] at h; cases h
      | key :: rest, h =>
        rw [isExpression_path_cons hpath] at h
        obtain ⟨hkey, hrest⟩ := Bool.and_eq_true_iff.1 h
        obtain ⟨key, rfl, hkey⟩ := Term.any_kind?_iff.1 hkey
        exact (Operand.key hpath (isKeyReference_iff.1 hkey)).append
          (continuation_of_continuesExpression rest hrest)
    · rw [isExpression_leaf hpath] at h
      obtain ⟨hvalue, hrest⟩ := Bool.and_eq_true_iff.1 h
      exact (Operand.value (isValue_iff.1 hvalue)).append
        (continuation_of_continuesExpression rest hrest)
  | .call name args :: rest, h => by
    rw [isExpression_call] at h
    exact (Operand.call name args).append (continuation_of_continuesExpression rest h)
  | .bracket body :: rest, h => by
    rw [isExpression_bracket] at h
    exact (Operand.bracket body).append (continuation_of_continuesExpression rest h)
  | .paren body :: rest, h => by
    rw [isExpression_paren] at h
    obtain ⟨hbody, hrest⟩ := Bool.and_eq_true_iff.1 h
    exact (Operand.paren (expression_of_isExpression body hbody)).append
      (continuation_of_continuesExpression rest hrest)

theorem continuation_of_continuesExpression :
    ∀ rest : List Term, continuesExpression rest = true → Continuation rest
  | [], _ => .nil
  | op :: rest, h => by
    rw [continuesExpression] at h
    obtain ⟨hop, hrest⟩ := Bool.and_eq_true_iff.1 h
    obtain ⟨op, rfl, hop⟩ := Term.isOperator_iff.1 hop
    exact .operation hop (expression_of_isExpression rest hrest)

end

theorem isExpression_iff {args : List Term} : isExpression args = true ↔ Expression args :=
  ⟨expression_of_isExpression args, Expression.accepted⟩

/-- An expression while it is recognized: whether an operand is due or has just been read, the terms
to come in the group that is read, and those to come behind each of the parentheses around it, the
innermost first. -/
inductive Recognition where
  | operandDue (rest : List Term) (outer : List (List Term))
  | operandRead (rest : List Term) (outer : List (List Term))
  | ended (accepted : Bool)

namespace Recognition

def turn : Recognition → Recognition
  | operandDue [] _ => ended false
  | operandDue [.leaf t] outer => if t.kind.isValue then operandRead [] outer else ended false
  | operandDue (.leaf t :: key :: rest) outer =>
    if t.kind = .keyPath then
      if key.kind?.any Kind.isKeyReference then operandRead rest outer else ended false
    else if t.kind.isValue then operandRead (key :: rest) outer
    else ended false
  | operandDue (.call _ _ :: rest) outer => operandRead rest outer
  | operandDue (.bracket _ :: rest) outer => operandRead rest outer
  | operandDue (.paren body :: rest) outer => operandDue body (rest :: outer)
  | operandRead [] [] => ended true
  | operandRead [] (rest :: outer) => operandRead rest outer
  | operandRead (op :: rest) outer =>
    if op.isOperator then operandDue rest outer else ended false
  | ended accepted => ended accepted

def verdict : Recognition → Bool
  | operandDue rest outer => isExpression rest && outer.all continuesExpression
  | operandRead rest outer => continuesExpression rest && outer.all continuesExpression
  | ended accepted => accepted

def size : Recognition → ℕ
  | operandDue rest outer | operandRead rest outer =>
    (Formula.tokens rest).length + (outer.flatMap Formula.tokens).length + outer.length + 1
  | ended _ => 0

/-- A turn does not change what the recognition comes to. -/
theorem verdict_turn (r : Recognition) : r.turn.verdict = r.verdict := by
  fun_cases turn r with
  | case2 t outer ht | case6 t key rest outer _ ht =>
    rw [verdict, verdict, isExpression_value ht]
  | case3 t outer ht | case7 t key rest outer _ ht =>
    simp_all [verdict, isExpression]
  | case4 path key rest outer hpath hkey | case5 path key rest outer hpath hkey =>
    simp_all [verdict, isExpression_path_cons]
  | case8 name args rest outer => rw [verdict, verdict, isExpression_call]
  | case9 body rest outer => rw [verdict, verdict, isExpression_bracket]
  | case10 body rest outer =>
    rw [verdict, verdict, isExpression_paren, List.all_cons, Bool.and_assoc]
  | case13 op rest outer hop | case14 op rest outer hop =>
    simp_all [verdict, continuesExpression]
  | case1 | case11 | case12 | case15 => simp [verdict, isExpression, continuesExpression]

/-- A turn takes a token away, or leaves parentheses, whose closing token counts one. -/
theorem size_turn_le (r : Recognition) : r.turn.size ≤ r.size - 1 := by
  fun_cases turn r with
  | case13 op rest outer hop =>
    obtain ⟨op, rfl, -⟩ := Term.isOperator_iff.1 hop
    simp only [size, Formula.tokens, Term.tokens, List.length_append, List.length_singleton]
    omega
  | _ =>
    simp only [size, Formula.tokens, Term.tokens, List.length_append, List.length_cons,
      List.length_nil, List.flatMap_cons]
    omega

theorem iterate_turn {r : Recognition} {n : ℕ} (h : r.size ≤ n) :
    turn^[n] r = ended r.verdict := by
  induction n generalizing r with
  | zero =>
    cases r with
    | operandDue | operandRead => cases h
    | ended accepted => rfl
  | succ n ih =>
    have hturn := r.size_turn_le
    rw [Function.iterate_succ_apply, ih (by omega), verdict_turn]

end Recognition

/-- An argument list is accepted exactly if it is an expression, and the loop comes to this verdict
after as many turns as the list has tokens, and one. -/
theorem expression_recognized (args : List Term) :
    (isExpression args = true ↔ Expression args) ∧
      Recognition.turn^[(Formula.tokens args).length + 1] (.operandDue args []) =
        .ended (isExpression args) := by
  have hsize : (Recognition.operandDue args []).size ≤ (Formula.tokens args).length + 1 := by
    simp [Recognition.size]
  have hverdict : (Recognition.operandDue args []).verdict = isExpression args := by
    simp [Recognition.verdict]
  refine ⟨isExpression_iff, ?_⟩
  rw [Recognition.iterate_turn hsize, hverdict]

end PdfSchema
