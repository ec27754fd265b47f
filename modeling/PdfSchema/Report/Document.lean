import PdfSchema.Calendar
import PdfSchema.Match.Report
import PdfSchema.Report.Findings

namespace PdfSchema.Report

open Match

def classWidth : Nat := 18

def annotationLine (a : Annotation) : String :=
  let cls := a.cls.label ++ String.ofList (List.replicate (classWidth - a.cls.label.length) ' ')
  let type := (a.type.map fun t => " as " ++ t.label).getD ""
  let id := (a.id.map fun id => s!" [{id.render} R]").getD ""
  let link := (a.link.map (" -> " ++ ·)).getD ""
  s!"{cls} {a.path} : {a.kind.label}" ++ type ++ id ++ link

def classesLine (r : Match.Report) : String :=
  "nodes: " ++ " ".intercalate (r.countByClass.map fun (cls, n) => s!"{cls.label}={n}")

def documentLines (source : String) (time : Moment) (r : Match.Report) : List String :=
  let root := r.rootObject.getD "(none)"
  let summaryLines := if r.diagnostics.isEmpty then [] else [summary r.diagnostics]
  [s!"# {source}", s!"# generated {time.render}", s!"# root object: {root}", ""] ++
    r.annotations.map annotationLine ++ [""] ++ r.diagnostics.map Diagnostic.render ++
    [classesLine r] ++ summaryLines

def document (source : String) (time : Moment) (r : Match.Report) : String :=
  unlines (documentLines source time r)

end PdfSchema.Report
