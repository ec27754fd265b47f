import PdfSchema.Function.Check
import PdfSchema.Row.Basic
import PdfSchema.Row.Cell
import PdfSchema.Table
import PdfSchema.Term.Nesting

namespace PdfSchema

structure CellError where
  column : Column
  raw : String
  error : FormulaError
  deriving DecidableEq, Repr

namespace Row

inductive Finding where
  | columnCount (line found : Nat)
  | duplicateKey (key : String)
  | alternativeCount (column : Column) (entries types : Nat)
  | shape (column : Column) (error : ShapeError)
  deriving DecidableEq, Repr

def Finding.code : Finding → String
  | columnCount _ _ => "column-count"
  | duplicateKey _ => "duplicate-key"
  | alternativeCount _ _ _ => "alternative-count"
  | shape _ (.unknownFunction _) => "unknown-function"
  | shape _ (.badArguments _ _) => "bad-arguments"

def Finding.message : Finding → String
  | columnCount line found => s!"line {line} has {found} columns, expected {Column.all.length}"
  | duplicateKey key => s!"duplicate key `{key}`, first row kept"
  | alternativeCount column entries types =>
    s!"{entries} {column.label} entries for {types} types"
  | shape _ error => error.message

def Finding.column? : Finding → Option Column
  | columnCount _ _ | duplicateKey _ => none
  | alternativeCount column _ _ | shape column _ => some column

def parseCell (column : Column) (raw : String) : Except CellError Formula :=
  match Formula.parse raw with
  | .ok f => .ok f
  | .error e => .error ⟨column, raw, e⟩

def typeEntry (s : String) : Except CellError TypeEntry :=
  if Cell.callsFunction s then (parseCell .type s).map .guarded else .ok (.named s)

def sinceVersionOf (s : String) : Except CellError SinceVersion :=
  if Cell.callsFunction s then (parseCell .sinceVersion s).map .formula else .ok (.version s)

def flag (column : Column) (s : String) : Except CellError Flag :=
  let s := Text.trim s
  if s = "TRUE" ∨ s = "[TRUE]" then .ok (.literal true)
  else if s = "FALSE" ∨ s = "[FALSE]" then .ok (.literal false)
  else if Cell.callsFunction s then (parseCell column s).map .formula
  else .ok (.invalid s)

/-- A single value. Text in parentheses is kept as it stands. -/
def value (column : Column) (s : String) : Except CellError Value :=
  let s := Text.trim s
  let cs := s.toList
  if cs.head? = some '(' && cs.getLast? = some ')' && !Cell.callsFunction s then .ok (.text s)
  else if Cell.callsFunction s || cs.head? = some '[' then
    (parseCell column s).map Value.ofFormula
  else match Token.scan s with
    | .error e => .error ⟨column, s, .lexical e⟩
    | .ok [t] => .ok (.scalar t)
    | .ok _ => (parseCell column s).map Value.ofFormula

/-- A number under the type `name` is a name that looks like one. -/
def asName (type : Option TypeEntry) (v : Value) : Value :=
  if type.bind TypeEntry.name? = some "name" then
    match v with
    | .scalar t =>
      if t.kind = .integer ∨ t.kind = .real then .scalar { t with kind := .keyName } else v
    | _ => v
  else v

def mapPresent {α β ε : Type} (f : Nat → α → Except ε β) (entries : List (Option α)) :
    Except ε (List (Option β)) :=
  entries.zipIdx.mapM fun
    | (none, _) => .ok none
    | (some a, i) => (f i a).map some

def defaultValues (s : String) (types : List TypeEntry) :
    Except CellError (Option (List (Option Value))) :=
  match Cell.optionalAlternatives s (types.any (·.name? = some "array")) with
  | none => .ok none
  | some entries =>
    (mapPresent (fun i s => (value .defaultValue s).map (asName types[i]?)) entries).map some

/-- The values of one alternative: with a function among them the whole entry is one formula. -/
def possibleValuesOf (s : String) : Except CellError (List Value) :=
  if Cell.callsFunction s then (parseCell .possibleValues s).map Value.ofTerms
  else (Cell.items s).mapM (value .possibleValues)

def possibleValueLists (s : String) (types : List TypeEntry) :
    Except CellError (Option (List (Option (List Value)))) :=
  match Cell.optionalAlternatives s false with
  | none => .ok none
  | some entries =>
    (mapPresent (fun i s => (possibleValuesOf s).map (·.map (asName types[i]?))) entries).map some

def specialCases (s : String) : Except CellError (Option (List (Option Formula))) :=
  match Cell.optionalAlternatives s false with
  | none => .ok none
  | some entries => (mapPresent (fun _ s => parseCell .specialCase s) entries).map some

def linkTarget (t : Term) : LinkTarget :=
  match t.leaf?.bind Token.keyName? with
  | some name => .object name
  | none => .guarded [t]

def linkTargets (s : String) : Except CellError (Option (List (Option (List LinkTarget)))) :=
  match Cell.optionalAlternatives s false with
  | none => .ok none
  | some entries =>
    (mapPresent (fun _ s => (parseCell .link s).map (·.map linkTarget)) entries).map some

/-- A single entry of `IndirectReference` counts for every type. -/
def broadcast (flags : List Flag) (types : Nat) : List Flag :=
  match flags with
  | [f] => if types > 1 then List.replicate types f else flags
  | _ => flags

def countFindings (column : Column) (entries types : Nat) : List Finding :=
  if entries = types then [] else [.alternativeCount column entries types]

def shapeFindings (r : Row) : List Finding :=
  r.formulas.flatMap fun (column, f) => (Formula.shapeErrors f).map (Finding.shape column)

structure Head where
  types : List TypeEntry
  sinceVersion : SinceVersion
  required : List Flag
  indirectReference : List Flag

def readHead (r : Table.Record) : Except CellError Head := do
  let types ← (Cell.alternatives (r.cell .type)).mapM typeEntry
  let sinceVersion ← sinceVersionOf (Text.trim (r.cell .sinceVersion))
  let required ← (Cell.alternatives (r.cell .required)).mapM (flag .required)
  let indirect ← (Cell.alternatives (r.cell .indirectReference)).mapM fun s =>
    flag .indirectReference ((Cell.inBrackets? s).getD s)
  return ⟨types, sinceVersion, required, broadcast indirect types.length⟩

structure Body where
  inheritable : Flag
  defaultValue : Option (List (Option Value))
  possibleValues : Option (List (Option (List Value)))
  specialCase : Option (List (Option Formula))

def readBody (r : Table.Record) (types : List TypeEntry) : Except CellError Body := do
  let inheritable ← flag .inheritable (Text.trim (r.cell .inheritable))
  let defaultValue ← defaultValues (r.cell .defaultValue) types
  let possibleValues ← possibleValueLists (r.cell .possibleValues) types
  let specialCase ← specialCases (r.cell .specialCase)
  return ⟨inheritable, defaultValue, possibleValues, specialCase⟩

/-- Reads a row: its findings, and the row or the first cell that is no formula. -/
def ofRecord (r : Table.Record) : List Finding × Except CellError Row :=
  match readHead r with
  | .error e => ([], .error e)
  | .ok head =>
    let types := head.types.length
    let indirect := countFindings .indirectReference head.indirectReference.length types
    match readBody r head.types with
    | .error e => (indirect, .error e)
    | .ok body =>
      let special := match body.specialCase with
        | none => []
        | some entries => countFindings .specialCase entries.length types
      match linkTargets (r.cell .link) with
      | .error e => (indirect ++ special, .error e)
      | .ok link =>
        let row : Row :=
          { types := head.types
            sinceVersion := head.sinceVersion
            deprecatedIn := Cell.text? (r.cell .deprecatedIn)
            required := head.required
            indirectReference := head.indirectReference
            inheritable := body.inheritable
            defaultValue := body.defaultValue
            possibleValues := body.possibleValues
            specialCase := body.specialCase
            link
            note := Cell.text? (r.cell .note) }
        (indirect ++ special ++ shapeFindings row, .ok row)

end Row

end PdfSchema
