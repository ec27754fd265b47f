import PdfSchema.CommandLine.Arguments
import PdfSchema.Consistency
import PdfSchema.Document.Basic
import PdfSchema.Export
import PdfSchema.FileTree.Unique
import PdfSchema.Ingestion
import PdfSchema.Match.Walk
import PdfSchema.Report.Document
import PdfSchema.SchemaFiles

namespace PdfSchema.CommandLine

inductive Failure where
  | schema (error : SchemaFiles.Error)
  | noObjects (directory : String)
  | notExported (error : FileError)
  | badPattern (error : Glob.Error)
  | noMatches (pattern : String)
  | notReported (directory : String)
  | documents (failed total : Nat)
  deriving DecidableEq, Repr

def Failure.message : Failure → String
  | schema e => e.message
  | noObjects directory => s!"no schema object could be ingested from {directory}"
  | notExported e => e.message
  | badPattern e => e.message
  | noMatches pattern => s!"glob pattern matched no files: {pattern}"
  | notReported directory => s!"writing report into {directory}"
  | documents failed total => s!"{failed} of {total} document(s) could not be matched"

inductive LoadError where
  | file (error : FileError)
  | document (error : DocumentError)
  deriving DecidableEq, Repr

def LoadError.message (path : String) : LoadError → String
  | file e => s!"cannot read `{path}`: {e.message}"
  | document e => e.message path

/-- What a run takes from outside besides files: the language of filters, and the moment at which
the report on the document at each position is made. -/
structure Surroundings where
  filters : FilterLanguage
  clock : Nat → Moment

structure Outcome where
  tree : FileTree
  output : String := ""
  errors : String := ""
  failure : Option Failure := none

def isPattern (path : String) : Bool := path.toList.any "*?[\x7b".toList.contains

def documentPaths (t : FileTree) (argument : String) : Except Failure (List String) :=
  if isPattern argument then match t.glob argument with
    | .error e => .error (.badPattern e)
    | .ok [] => .error (.noMatches argument)
    | .ok paths => .ok paths
  else if t.isDirectoryPath argument then
    match t.glob (Glob.escape argument ++ "/*.json") with
    | .error e => .error (.badPattern e)
    | .ok paths => .ok (SchemaFiles.sortPaths paths)
  else .ok [argument]

def allDocumentPaths (t : FileTree) (arguments : List String) : Except Failure (List String) :=
  (arguments.mapM (documentPaths t)).map List.flatten

def loadDocument (filters : FilterLanguage) (t : FileTree) (filter : Option String)
    (path : String) : Except LoadError Document :=
  match t.read path with
  | .error e => .error (.file e)
  | .ok bytes => (Document.ofBytes filters filter bytes).mapError .document

def reportOn (w : Surroundings) (a : Arguments) (t : FileTree) (s : Schema) (path : String)
    (i : Nat) : Except LoadError String := do
  let d ← loadDocument w.filters t a.filter path
  let options : Match.Options := { rootObject := a.rootObject, maxDepth := a.maxDepth }
  return Report.document path (w.clock i) (s.matchDocument d options)

def reportsOn (w : Surroundings) (a : Arguments) (t : FileTree) (s : Schema)
    (paths : List String) : List (String × Except LoadError String) :=
  paths.zipIdx.map fun (path, i) => (path, reportOn w a t s path i)

def skipped (path : String) (e : LoadError) : String := s!"skipped {path}: {e.message path}\n"

def reportStem (path : String) : String := (Path.stem? path).getD "report"

/-- Hands reports out, in their order: into files of a directory if there is one, else to the
standard output. A document without a report hides no other; a report that cannot be written ends
the run. -/
def deliver (directory : Option String) (t : FileTree) :
    List (String × Except LoadError String) → Outcome
  | [] => { tree := t }
  | (path, .error e) :: rest =>
    let o := deliver directory t rest
    { o with errors := skipped path e ++ o.errors }
  | (path, .ok text) :: rest => match directory with
    | none =>
      let o := deliver directory t rest
      { o with output := text ++ "\n" ++ o.output }
    | some dir => match t.createUnique dir (reportStem path) text.toUTF8.toList with
      | (t, .ok _) => deliver directory t rest
      | (t, .error _) => { tree := t, failure := some (.notReported dir) }

def countFailure (reports : List (String × Except LoadError String)) : Option Failure :=
  let failed := reports.countP fun r => !r.2.isOk
  if failed = 0 then none else some (.documents failed reports.length)

/-- Matches the documents, all against the tree as it is before the first report is written. -/
def matchDocuments (w : Surroundings) (a : Arguments) (t : FileTree) (s : Schema) : Outcome :=
  match allDocumentPaths t a.documents with
  | .error f => { tree := t, failure := some f }
  | .ok paths =>
    let reports := reportsOn w a t s paths
    let o := deliver a.reportDirectory t reports
    { o with failure := o.failure.or (countFailure reports) }

def exportSchema (a : Arguments) (t : FileTree) (s : Schema) : Except FileError FileTree :=
  match a.exportPath with
  | none => .ok t
  | some path => t.write path (s.toJson.pretty 0).toUTF8.toList

def schemaReport (a : Arguments) (r : Ingested) : String :=
  let found := if a.validate then r.schema.validate defaultRoots else []
  let all := r.diagnostics ++ found
  if a.validate || !all.isEmpty then Report.findings false all else ""

def run (w : Surroundings) (a : Arguments) (t : FileTree) : Outcome :=
  match t.readTables a.schemaDirectory with
  | .error e => { tree := t, failure := some (.schema e) }
  | .ok tables =>
    let r := ingest tables
    if r.schema.isEmpty then
      { tree := t
        errors := Report.findings false r.diagnostics
        failure := some (.noObjects a.schemaDirectory) }
    else match exportSchema a t r.schema with
      | .error e => { tree := t, failure := some (.notExported e) }
      | .ok t =>
        let o := matchDocuments w a t r.schema
        { o with output := schemaReport a r ++ o.output }

end PdfSchema.CommandLine
