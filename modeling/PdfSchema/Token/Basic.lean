import PdfSchema.Double.Decimal

namespace PdfSchema

namespace Token

inductive Kind where
  | functionHead
  | trueWord
  | falseWord
  | quoted
  | modulo
  | ellipsis
  | keyValue
  | keyPath
  | keyName
  | pathSeparator
  | openBracket
  | closeBracket
  | eq
  | ne
  | ge
  | le
  | and
  | or
  | gt
  | lt
  | real
  | integer
  | plus
  | minus
  | times
  | divide
  | openParen
  | closeParen
  | comma
  deriving DecidableEq, Repr, Inhabited

namespace Kind

def isComparison : Kind → Bool
  | eq | ne | ge | le | gt | lt => true
  | _ => false

def isLogical : Kind → Bool
  | and | or => true
  | _ => false

def isArithmetic : Kind → Bool
  | plus | minus | times | divide | modulo => true
  | _ => false

def isOperator (k : Kind) : Bool :=
  k.isComparison || k.isLogical || k.isArithmetic

def isValue : Kind → Bool
  | keyName | keyValue | integer | real | trueWord | falseWord | quoted => true
  | _ => false

def isKeyReference : Kind → Bool
  | keyName | keyValue | integer => true
  | _ => false

end Kind

inductive Literal where
  | integer (value : Int)
  | real (value : Double)
  | boolean (value : Bool)
  | text (value : String)
  | keyName (value : String)
  deriving DecidableEq, Repr

end Token

structure Token where
  kind : Token.Kind
  raw : String
  deriving DecidableEq, Repr, Inhabited

namespace Token

def integerValue (s : List Char) : Int :=
  match s with
  | '-' :: ds => -(Text.decimalValue ds : Int)
  | ds => Text.decimalValue ds

def literal (t : Token) : Option Literal :=
  match t.kind with
  | .integer => some (.integer (integerValue t.raw.toList))
  | .real => some (.real (Double.ofNumeral t.raw.toList))
  | .trueWord => some (.boolean true)
  | .falseWord => some (.boolean false)
  | .quoted => some (.text (String.ofList (t.raw.toList.drop 1).dropLast))
  | .keyName => some (.keyName t.raw)
  | _ => none

def integer? (t : Token) : Option Int :=
  if t.kind = .integer then some (integerValue t.raw.toList) else none

def keyName? (t : Token) : Option String :=
  if t.kind = .keyName then some t.raw else none

def functionName? (t : Token) : Option String :=
  if t.kind = .functionHead then some (String.ofList (t.raw.toList.drop 3).dropLast) else none

def functionHead (name : String) : Token := ⟨.functionHead, "fn:" ++ name ++ "("⟩

def openParen : Token := ⟨.openParen, "("⟩

def closeParen : Token := ⟨.closeParen, ")"⟩

def openBracket : Token := ⟨.openBracket, "["⟩

def closeBracket : Token := ⟨.closeBracket, "]"⟩

end Token

end PdfSchema
