import PdfSchema.Diagnostic
import PdfSchema.Row.OfRecord

namespace PdfSchema

inductive ObjectError where
  | emptyKey (object : String) (line : Nat)
  | badCell (object key : String) (error : CellError)
  deriving DecidableEq, Repr

namespace ObjectError

def message : ObjectError → String
  | emptyKey object line => s!"{object}: line {line} has an empty key name"
  | badCell object key e =>
    s!"{object}::{key} {e.column.label}: cannot parse `{e.raw}`: {e.error.message}"

def diagnostic (e : ObjectError) : Diagnostic :=
  let message := e.message ++ "; object dropped"
  match e with
  | emptyKey object _ =>
    ⟨.ingestion, .error, "empty-key", { object := some object }, message⟩
  | badCell object key cell =>
    let location : Diagnostic.Location :=
      { object := some object, key := some key, column := some cell.column.label }
    match cell.error with
    | .lexical _ => ⟨.lexical, .error, "lex-error", location, message⟩
    | .nesting _ => ⟨.nesting, .error, "parse-error", location, message⟩

end ObjectError

def Row.Finding.diagnostic (object key : String) (f : Row.Finding) : Diagnostic :=
  { kind := match f with
      | .shape _ _ => .shape
      | _ => .ingestion
    severity := .error
    code := f.code
    location := { object := some object, key := some key, column := f.column?.map Column.label }
    message := f.message }

namespace Table

def Record.key (r : Record) : String := Text.trim (r.cell .key)

def addRow (object : String) (rows : SchemaObject) (r : Record) :
    List Row.Finding × Except ObjectError SchemaObject :=
  let count : List Row.Finding :=
    if r.cellCount = Column.all.length then [] else [.columnCount r.line r.cellCount]
  match Row.ofRecord r with
  | (findings, .error e) => (count ++ findings, .error (.badCell object r.key e))
  | (findings, .ok row) =>
    if rows.contains r.key then (count ++ findings ++ [.duplicateKey r.key], .ok rows)
    else (count ++ findings, .ok (rows.put r.key row))

/-- Adds the rows of all records, up to the first one that has no key or cannot be read. -/
def addRows (object : String) (rows : SchemaObject) :
    List Record → List Diagnostic × Except ObjectError SchemaObject
  | [] => ([], .ok rows)
  | r :: rest =>
    if r.key = "" then ([], .error (.emptyKey object r.line))
    else match addRow object rows r with
      | (findings, .error e) =>
        (findings.map (Row.Finding.diagnostic object r.key), .error e)
      | (findings, .ok rows) =>
        let later := addRows object rows rest
        (findings.map (Row.Finding.diagnostic object r.key) ++ later.1, later.2)

/-- The object that a table describes, and the diagnostics up to its end or its first error. -/
def toObject (t : Table) : List Diagnostic × Except ObjectError SchemaObject :=
  addRows t.name .empty t.records

end Table

structure Ingested where
  schema : Schema
  diagnostics : List Diagnostic

namespace Ingested

def empty : Ingested := ⟨.empty, []⟩

/-- Adds a table: its object replaces an earlier one of the same name. -/
def add (out : Ingested) (t : Table) : Ingested :=
  let (diagnostics, result) := t.toObject
  match result with
  | .ok object => ⟨out.schema.put t.name object, out.diagnostics ++ diagnostics⟩
  | .error e => ⟨out.schema, out.diagnostics ++ diagnostics ++ [e.diagnostic]⟩

end Ingested

def ingest (tables : List Table) : Ingested := tables.foldl Ingested.add .empty

end PdfSchema
