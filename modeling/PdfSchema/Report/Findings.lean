import PdfSchema.Diagnostic

namespace PdfSchema.Report

inductive Emphasis where
  | bold
  | red
  | yellow
  | cyan
  | green

def Emphasis.code : Emphasis → String
  | bold => "1"
  | red => "1;31"
  | yellow => "33"
  | cyan => "36"
  | green => "32"

def paint (color : Bool) (e : Emphasis) (s : String) : String :=
  if color then "\x1b[" ++ e.code ++ "m" ++ s ++ "\x1b[0m" else s

def severityEmphasis : Diagnostic.Severity → Emphasis
  | .error => .red
  | .warning => .yellow
  | .note => .cyan

def summary (ds : List Diagnostic) : String :=
  let counts := (Diagnostic.countByCode ds).map fun (code, n) => s!"{code}={n}"
  s!"{ds.length} finding(s): " ++ " ".intercalate counts

def findingLine (color : Bool) (d : Diagnostic) : String :=
  "  " ++ paint color (severityEmphasis d.severity) d.severity.label ++ " " ++
    d.location.render ++ ": " ++ d.message

def kindLines (color : Bool) (kind : Diagnostic.Kind) (ds : List Diagnostic) : List String :=
  (paint color .bold kind.label ++ s!" ({ds.length})") :: ds.map (findingLine color)

def findingsLines (color : Bool) (ds : List Diagnostic) : List String :=
  ((Diagnostic.byKind ds).flatMap fun (kind, items) => kindLines color kind items) ++
    [if ds.isEmpty then paint color .green "schema is consistent" else summary ds]

def unlines (lines : List String) : String := String.join (lines.map (· ++ "\n"))

def findings (color : Bool) (ds : List Diagnostic) : String := unlines (findingsLines color ds)

end PdfSchema.Report
