import PdfSchema.Term.Basic
import PdfSchema.Policy

namespace PdfSchema

mutual

/-- Whether a term is an operand on its own: a value, a call, a bracket, or parentheses around an
expression. -/
def Term.isOperand : Term → Bool
  | .leaf t => t.kind.isValue
  | .call _ _ => true
  | .bracket _ => true
  | .paren body => isExpression body

/-- Operands and operators in turn, an operand first and last. A key path and the key after it
are one operand. -/
def isExpression : List Term → Bool
  | [] => false
  | .leaf t :: rest =>
    if t.kind = .keyPath then
      match rest with
      | [] => false
      | key :: rest => key.kind?.any Token.Kind.isKeyReference && continuesExpression rest
    else t.kind.isValue && continuesExpression rest
  | t :: rest => t.isOperand && continuesExpression rest

def continuesExpression : List Term → Bool
  | [] => true
  | op :: rest => op.isOperator && isExpression rest

end

def isSingleOperand : List Term → Bool
  | [t] => t.isOperand
  | [path, key] => path.isLeafOf .keyPath && key.kind?.any Token.Kind.isKeyReference
  | _ => false

/-- What follows a reference to a key: an optional key path, and a key name, an index or the value
of a key. -/
def afterKeyReference? (args : List Term) : Option (List Term) :=
  let rest := match args with
    | path :: rest => if path.isLeafOf .keyPath then rest else args
    | [] => args
  match rest with
  | key :: rest => if key.kind?.any Token.Kind.isKeyReference then some rest else none
  | [] => none

def Term.isVersion (t : Term) : Bool :=
  t.leaf?.any fun token => token.kind = .real && isFormatVersion token.raw

def Term.bit? (t : Term) : Option Int :=
  (t.leaf?.bind Token.integer?).filter fun n => 1 ≤ n && n ≤ 32

def Term.isGrouped : Term → Bool
  | .paren _ | .call _ _ => true
  | _ => false

def isConditionChain : List Term → Bool
  | [] => true
  | [t] => t.isGrouped
  | t :: op :: rest =>
    t.isGrouped && op.kind?.any Token.Kind.isLogical && isConditionChain rest

/-- A comparison of two operands, a grouped condition, or a chain of these. -/
def isCondition (terms : List Term) : Bool :=
  match terms with
  | [left, op, right] =>
    if op.kind?.any Token.Kind.isComparison then
      isSingleOperand [left] && isSingleOperand [right]
    else isExpression terms && isConditionChain terms
  | [t] => t.isGrouped
  | _ => 1 < terms.length && isExpression terms && isConditionChain terms

inductive Shape where
  | nothing
  | keyReference
  | versioned
  | expression
  | optionalExpression
  | bit
  | bitRange
  | arrayLength
  | sortStep
  | extension
  | defaultValue
  | presence
  | pageProperty
  | requiredValue
  | contains
  deriving DecidableEq, Repr

def Shape.accepts : Shape → List Term → Bool
  | nothing, args => args.isEmpty
  | keyReference, args => (afterKeyReference? args).any List.isEmpty
  | versioned, args => match args with
    | version :: rest => version.isVersion && (rest.isEmpty || isExpression rest)
    | [] => false
  | expression, args => isExpression args
  | optionalExpression, args => args.isEmpty || isExpression args
  | bit, args => match args with
    | [b] => b.bit?.isSome
    | _ => false
  | bitRange, args => match args with
    | [low, high] => match low.bit?, high.bit? with
      | some l, some h => l ≤ h
      | _, _ => false
    | _ => false
  | arrayLength, args =>
    (match args with
      | [t] => t.call?.isSome
      | _ => false) || (afterKeyReference? args).any List.isEmpty
  | sortStep, args => match afterKeyReference? args with
    | some [step] => step.isLeafOf .integer
    | _ => false
  | extension, args => match args with
    | name :: rest => name.isLeafOf .keyName && (rest.isEmpty || isExpression rest)
    | [] => false
  | defaultValue, args => match args.getLast? with
    | some value =>
      !args.dropLast.isEmpty && isSingleOperand [value] && isExpression args.dropLast
    | none => false
  | presence, args => isExpression args || (afterKeyReference? args).any isExpression
  | pageProperty, args => match afterKeyReference? args with
    | some [property] => property.isLeafOf .keyName
    | _ => false
  | requiredValue, args => match args.getLast? with
    | some value => isSingleOperand [value] && isCondition args.dropLast
    | none => false
  | contains, args => (afterKeyReference? args).any isSingleOperand

end PdfSchema
