import PdfSchema.Term.Basic

namespace PdfSchema

inductive Opening where
  | call (name : String)
  | paren
  | bracket
  deriving DecidableEq, Repr

namespace Opening

def label : Opening → String
  | call _ => "fn:("
  | paren => "("
  | bracket => "["

def closing : Opening → Token.Kind
  | call _ | paren => .closeParen
  | bracket => .closeBracket

def group (o : Opening) (body : List Term) : Term :=
  match o with
  | call name => .call name body
  | paren => .paren body
  | bracket => .bracket body

def ofToken? (t : Token) : Option Opening :=
  match t.kind with
  | .functionHead => t.functionName?.map call
  | .openParen => some paren
  | .openBracket => some bracket
  | _ => none

end Opening

inductive NestingError where
  | unmatchedClose (close : String)
  | mismatchedClose (opening : Opening) (close : String)
  | unclosed (opening : Opening)
  deriving DecidableEq, Repr

def NestingError.message : NestingError → String
  | .unmatchedClose close => s!"unmatched `{close}`"
  | .mismatchedClose opening close => s!"`{opening.label}` closed by `{close}`"
  | .unclosed opening => s!"unclosed `{opening.label}` at end of input"

/-- A group that is open: what opened it, and the terms before it in the group around it, the last
one first. -/
structure OpenGroup where
  opening : Opening
  before : List Term

namespace Formula

/-- Nests `tokens` inside the groups `outer`, the innermost first, of which the innermost has the
terms `done` already, the last one first. -/
def nestInside (outer : List OpenGroup) (done : List Term) :
    List Token → Except NestingError Formula
  | [] => match outer with
    | [] => .ok done.reverse
    | g :: _ => .error (.unclosed g.opening)
  | t :: ts => match t.kind with
    | .comma => nestInside outer done ts
    | .closeParen | .closeBracket => match outer with
      | [] => .error (.unmatchedClose t.raw)
      | g :: rest =>
        if g.opening.closing = t.kind then
          nestInside rest (g.opening.group done.reverse :: g.before) ts
        else .error (.mismatchedClose g.opening t.raw)
    | _ => match Opening.ofToken? t with
      | some o => nestInside (⟨o, done⟩ :: outer) [] ts
      | none => nestInside outer (.leaf t :: done) ts

def ofTokens (tokens : List Token) : Except NestingError Formula := nestInside [] [] tokens

end Formula

inductive FormulaError where
  | lexical (error : ScanError)
  | nesting (error : NestingError)
  deriving DecidableEq, Repr

def FormulaError.message : FormulaError → String
  | .lexical e => e.message
  | .nesting e => e.message

def Formula.parse (s : String) : Except FormulaError Formula :=
  match Token.scan s with
  | .error e => .error (.lexical e)
  | .ok ts => match Formula.ofTokens ts with
    | .error e => .error (.nesting e)
    | .ok f => .ok f

end PdfSchema
