import PdfSchema.Diagnostic
import PdfSchema.Match.Lookup

namespace PdfSchema.Match

structure Annotation where
  path : String
  key : String
  /-- The schema object that the key was looked up in. -/
  object : Option String
  cls : Class
  kind : PdfValue.Kind
  id : Option ObjectId
  type : Option ValueType
  /-- The schema object of the values inside this one. -/
  link : Option String
  deriving DecidableEq, Repr

inductive Issue where
  | missingRoot (name : String)
  | depthLimit (maxDepth : Nat)
  | danglingReference (id : ObjectId)
  | unexpectedKind (kind : PdfValue.Kind) (types : List String)
  | cycle (id : ObjectId)
  | sharedObject (id : ObjectId)
  | unmatchedKey (key object : String)
  | missingRequired (key object : String)
  | malformedArray (type : ValueType) (length entries : Nat)
  deriving DecidableEq, Repr

namespace Issue

def severity : Issue → Diagnostic.Severity
  | missingRoot _ | danglingReference _ => .error
  | cycle _ | sharedObject _ => .note
  | _ => .warning

def code : Issue → String
  | missingRoot _ => "missing-root"
  | depthLimit _ => "depth-limit"
  | danglingReference _ => "dangling-reference"
  | unexpectedKind _ _ => "unexpected-kind"
  | cycle _ => "cycle"
  | sharedObject _ => "shared-object"
  | unmatchedKey _ _ => "unmatched-key"
  | missingRequired _ _ => "missing-required"
  | malformedArray _ _ _ => "malformed-special-array"

def message : Issue → String
  | missingRoot name => s!"root object `{name}` is not in the schema; walking unmatched"
  | depthLimit maxDepth => s!"nesting deeper than {maxDepth}; subtree skipped"
  | danglingReference id =>
    s!"reference `{id.render} R` points to no object; treated as null"
  | unexpectedKind kind types =>
    s!"found {kind.label}, schema allows " ++ ";".intercalate types
  | cycle id => s!"object {id.render} already visited inside its own subtree; not entered again"
  | sharedObject id =>
    s!"object {id.render} already visited through another path; not entered again"
  | unmatchedKey key object => s!"`{key}` is not declared by `{object}`"
  | missingRequired key object => s!"required key `{key}` of `{object}` is absent"
  | malformedArray type length entries =>
    s!"a {type.label} needs {length} numbers, found {entries} entries"

end Issue

structure Finding where
  path : String
  object : Option String
  issue : Issue
  deriving DecidableEq, Repr

def Finding.diagnostic (f : Finding) : Diagnostic :=
  { kind := .matching
    severity := f.issue.severity
    code := f.issue.code
    location := { path := some f.path, object := f.object }
    message := f.issue.message }

structure Report where
  rootObject : Option String
  annotations : List Annotation
  findings : List Finding
  deriving DecidableEq, Repr

namespace Report

def diagnostics (r : Report) : List Diagnostic := r.findings.map Finding.diagnostic

def countByClass (r : Report) : List (Class × Nat) :=
  Class.all.map fun c => (c, r.annotations.countP fun a => a.cls = c)

def find? (r : Report) (path : String) : Option Annotation :=
  r.annotations.find? fun a => a.path = path

end Report

end PdfSchema.Match
