import PdfSchema.KeyedList

namespace PdfSchema

namespace Diagnostic

inductive Kind where
  | lexical
  | nesting
  | shape
  | ingestion
  | consistency
  | matching
  deriving DecidableEq, Repr

namespace Kind

def all : List Kind := [lexical, nesting, shape, ingestion, consistency, matching]

def label : Kind → String
  | lexical => "lex"
  | nesting => "parse"
  | shape => "shape"
  | ingestion => "ingestion"
  | consistency => "schema-consistency"
  | matching => "match"

def le (a b : Kind) : Bool := all.idxOf a ≤ all.idxOf b

end Kind

inductive Severity where
  | note
  | warning
  | error
  deriving DecidableEq, Repr

def Severity.label : Severity → String
  | note => "note"
  | warning => "warning"
  | error => "error"

/-- A cell of a schema table, or a path into a document with the schema object that holds there. -/
structure Location where
  object : Option String := none
  key : Option String := none
  column : Option String := none
  path : Option String := none
  deriving DecidableEq, Repr

def Location.render (l : Location) : String :=
  match l.path with
  | some path => path ++ (match l.object with
    | some object => " (" ++ object ++ ")"
    | none => "")
  | none => "::".intercalate ([l.object, l.key, l.column].filterMap id)

end Diagnostic

structure Diagnostic where
  kind : Diagnostic.Kind
  severity : Diagnostic.Severity
  code : String
  location : Diagnostic.Location
  message : String
  deriving DecidableEq, Repr

namespace Diagnostic

def render (d : Diagnostic) : String :=
  "[" ++ d.kind.label ++ "/" ++ d.code ++ "] " ++ d.location.render ++ ": " ++ d.message

def byKind (ds : List Diagnostic) : List (Kind × List Diagnostic) :=
  (Pairs.gather kind [] (fun items d => items ++ [d]) ds).mergeSort fun a b => a.1.le b.1

def countByCode (ds : List Diagnostic) : List (String × Nat) :=
  (Pairs.gather code 0 (fun n _ => n + 1) ds).mergeSort fun a b => a.1 ≤ b.1

end Diagnostic

end PdfSchema
