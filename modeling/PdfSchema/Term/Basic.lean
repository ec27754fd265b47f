import PdfSchema.Token.Scan

namespace PdfSchema

inductive Term where
  | leaf (token : Token)
  | call (name : String) (args : List Term)
  | paren (body : List Term)
  | bracket (body : List Term)
  deriving Repr, Inhabited

abbrev Formula := List Term

namespace Term

def leaf? : Term → Option Token
  | leaf t => some t
  | _ => none

def kind? (t : Term) : Option Token.Kind := t.leaf?.map Token.kind

def isLeafOf (k : Token.Kind) (t : Term) : Bool := t.kind? = some k

def isOperator (t : Term) : Bool := t.kind?.any Token.Kind.isOperator

def call? : Term → Option (String × List Term)
  | call name args => some (name, args)
  | _ => none

end Term

namespace Formula

def call? : Formula → Option (String × List Term)
  | [t] => t.call?
  | _ => none

end Formula

mutual

/-- The tokens at the leaves of a term, in order; the head of a call is one of them. -/
def Term.leaves : Term → List Token
  | .leaf t => [t]
  | .call name args => Token.functionHead name :: Formula.leaves args
  | .paren body => Formula.leaves body
  | .bracket body => Formula.leaves body

def Formula.leaves : List Term → List Token
  | [] => []
  | t :: ts => t.leaves ++ Formula.leaves ts

end

mutual

def Term.calls : Term → List (String × List Term)
  | .leaf _ => []
  | .call name args => (name, args) :: Formula.calls args
  | .paren body => Formula.calls body
  | .bracket body => Formula.calls body

def Formula.calls : List Term → List (String × List Term)
  | [] => []
  | t :: ts => t.calls ++ Formula.calls ts

end

mutual

def Term.render : Term → String
  | .leaf t => t.raw
  | .call name args => "fn:" ++ name ++ "(" ++ Formula.render args ++ ")"
  | .paren body => "(" ++ Formula.render body ++ ")"
  | .bracket body => "[" ++ Formula.render body ++ "]"

/-- A run of terms as text: a comma stands between two terms, unless one is an operator. -/
def Formula.render : List Term → String
  | [] => ""
  | t :: ts => t.render ++ Formula.renderAfter t ts

def Formula.renderAfter (before : Term) : List Term → String
  | [] => ""
  | t :: ts =>
    (if before.isOperator || t.isOperator then "" else ",") ++ t.render ++
      Formula.renderAfter t ts

end

mutual

/-- The tokens that a term is nested from: its leaves, and the tokens that open and close its
groups. -/
def Term.tokens : Term → List Token
  | .leaf t => [t]
  | .call name args => Token.functionHead name :: Formula.tokens args ++ [Token.closeParen]
  | .paren body => Token.openParen :: Formula.tokens body ++ [Token.closeParen]
  | .bracket body => Token.openBracket :: Formula.tokens body ++ [Token.closeBracket]

def Formula.tokens : List Term → List Token
  | [] => []
  | t :: ts => t.tokens ++ Formula.tokens ts

end

theorem eq_flatMap_of_cons {α β : Type} {f : List α → List β} {g : α → List β} (hnil : f [] = [])
    (hcons : ∀ a as, f (a :: as) = g a ++ f as) (as : List α) : f as = as.flatMap g := by
  induction as with
  | nil => exact hnil
  | cons a as ih => rw [hcons, ih, List.flatMap_cons]

namespace Formula

theorem leaves_eq_flatMap (f : Formula) : leaves f = f.flatMap Term.leaves :=
  eq_flatMap_of_cons rfl (fun _ _ ↦ rfl) f

theorem calls_eq_flatMap (f : Formula) : calls f = f.flatMap Term.calls :=
  eq_flatMap_of_cons rfl (fun _ _ ↦ rfl) f

theorem tokens_eq_flatMap (f : Formula) : tokens f = f.flatMap Term.tokens :=
  eq_flatMap_of_cons rfl (fun _ _ ↦ rfl) f

end Formula

end PdfSchema
