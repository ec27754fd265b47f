import PdfSchema.Policy
import PdfSchema.Text.Numeral

namespace PdfSchema.CommandLine

structure Arguments where
  schemaDirectory : String
  validate : Bool
  exportPath : Option String
  /-- Paths of documents, patterns for them, or directories with them. -/
  documents : List String
  reportDirectory : Option String
  filter : Option String
  maxDepth : Nat
  rootObject : Option String
  deriving DecidableEq, Repr

inductive Setting where
  | schemaDirectory
  | exportPath
  | documents
  | reportDirectory
  | filter
  | maxDepth
  | rootObject
  deriving DecidableEq, Repr

inductive Switch where
  | validate
  | debug
  | info
  | help
  | version
  deriving DecidableEq, Repr

inductive UsageError where
  | help
  | version
  | unknown (argument : String)
  | noValue (setting : Setting)
  | badValue (setting : Setting) (value : String)
  | unexpectedValue (switch : Switch)
  | repeatedSetting (setting : Setting)
  | repeatedSwitch (switch : Switch)
  | conflict (first second : Switch)
  | missing (setting : Setting)
  deriving DecidableEq, Repr

def Setting.name : Setting → String
  | schemaDirectory => "tsvdir"
  | exportPath => "json"
  | documents => "pdf"
  | reportDirectory => "out-dir"
  | filter => "jq-expr"
  | maxDepth => "max-depth"
  | rootObject => "root-object"

def Setting.all : List Setting :=
  [schemaDirectory, exportPath, documents, reportDirectory, filter, maxDepth, rootObject]

def Setting.ofName? (name : String) : Option Setting := all.find? fun s => s.name = name

def Switch.name : Switch → String
  | validate => "validate"
  | debug => "debug"
  | info => "info"
  | help => "help"
  | version => "version"

def Switch.all : List Switch := [validate, debug, info, help, version]

def Switch.ofName? (name : String) : Option Switch := all.find? fun s => s.name = name

def UsageError.message : UsageError → String
  | help => "usage: pdf-schema --tsvdir DIR [--validate] [--json FILE] [--pdf PATH...] " ++
      "[--out-dir DIR] [--jq-expr FILTER] [--max-depth N] [--root-object NAME] [--debug | --info]"
  | version => "pdf-schema 0.1.0"
  | unknown argument => s!"unexpected argument `{argument}`"
  | noValue setting => s!"--{setting.name} needs a value"
  | badValue setting value => s!"`{value}` is no value for --{setting.name}"
  | unexpectedValue switch => s!"--{switch.name} takes no value"
  | repeatedSetting setting => s!"--{setting.name} is given twice"
  | repeatedSwitch switch => s!"--{switch.name} is given twice"
  | conflict first second => s!"--{first.name} does not go with --{second.name}"
  | missing setting => s!"--{setting.name} is required"

structure Given where
  schemaDirectory : Option String := none
  exportPath : Option String := none
  documents : List String := []
  reportDirectory : Option String := none
  filter : Option String := none
  maxDepth : Option Nat := none
  rootObject : Option String := none
  switches : List Switch := []

namespace Given

def depthBound : Nat := UInt64.size

def path (setting : Setting) (old : Option String) (value : String) :
    Except UsageError (Option String) :=
  if old.isSome then .error (.repeatedSetting setting)
  else if value = "" then .error (.noValue setting)
  else .ok (some value)

def text (setting : Setting) (old : Option String) (value : String) :
    Except UsageError (Option String) :=
  if old.isSome then .error (.repeatedSetting setting) else .ok (some value)

def depth (old : Option Nat) (value : String) : Except UsageError (Option Nat) :=
  if old.isSome then .error (.repeatedSetting .maxDepth)
  else match Text.natural? depthBound value.toList with
    | some n => .ok (some n)
    | none => .error (.badValue .maxDepth value)

/-- Gives a setting its values; only `--pdf` takes more than one. -/
def set (g : Given) (setting : Setting) : List String → Except UsageError Given
  | [] => .error (.noValue setting)
  | v :: vs => match setting with
    | .schemaDirectory => do
      return { g with schemaDirectory := ← path setting g.schemaDirectory v }
    | .exportPath => do return { g with exportPath := ← path setting g.exportPath v }
    | .documents => .ok { g with documents := g.documents ++ v :: vs }
    | .reportDirectory => do
      return { g with reportDirectory := ← path setting g.reportDirectory v }
    | .filter => do return { g with filter := ← text setting g.filter v }
    | .maxDepth => do return { g with maxDepth := ← depth g.maxDepth v }
    | .rootObject => do return { g with rootObject := ← text setting g.rootObject v }

def turnOn (g : Given) (switch : Switch) : Except UsageError Given :=
  match switch with
  | .help => .error .help
  | .version => .error .version
  | switch =>
    if g.switches.contains switch then .error (.repeatedSwitch switch)
    else .ok { g with switches := switch :: g.switches }

def finish (g : Given) : Except UsageError Arguments :=
  if g.switches.contains .debug && g.switches.contains .info then .error (.conflict .debug .info)
  else match g.schemaDirectory with
    | none => .error (.missing .schemaDirectory)
    | some schemaDirectory => .ok
      { schemaDirectory
        validate := g.switches.contains .validate
        exportPath := g.exportPath
        documents := g.documents
        reportDirectory := g.reportDirectory
        filter := g.filter
        maxDepth := g.maxDepth.getD defaultMaxDepth
        rootObject := g.rootObject }

end Given

structure Progress where
  given : Given := {}
  /-- The last setting without `=`, and its values so far. They count when it is known that there
  are no more. -/
  pending : Option (Setting × List String) := none
  awaits : Bool := false
  closed : Bool := false

namespace Progress

def settle (p : Progress) : Except UsageError Given :=
  match p.pending with
  | some (setting, values) => p.given.set setting values
  | none => .ok p.given

def readSetting (p : Progress) (setting : Setting) (value : Option String) :
    Except UsageError Progress := do
  let given ← p.settle
  match value with
  | some v => return { given := ← given.set setting [v] }
  | none => return { given, pending := some (setting, []), awaits := true }

def readSwitch (p : Progress) (switch : Switch) : Except UsageError Progress := do
  return { given := ← (← p.settle).turnOn switch }

def readLong (p : Progress) (text : List Char) : Except UsageError Progress :=
  let name := String.ofList (text.takeWhile (· ≠ '='))
  let value := match text.dropWhile (· ≠ '=') with
    | _ :: v => some (String.ofList v)
    | [] => none
  match Setting.ofName? name, Switch.ofName? name with
  | some setting, _ => p.readSetting setting value
  | none, some switch =>
    if value.isSome then .error (.unexpectedValue switch) else p.readSwitch switch
  | none, none => .error (.unknown ("--" ++ String.ofList text))

def readShort (p : Progress) : List Char → Except UsageError Progress
  | [] => .ok p
  | 't' :: rest => match rest with
    | [] => p.readSetting .schemaDirectory none
    | '=' :: v => p.readSetting .schemaDirectory (some (String.ofList v))
    | v => p.readSetting .schemaDirectory (some (String.ofList v))
  | 'h' :: _ => p.readSwitch .help
  | 'V' :: _ => p.readSwitch .version
  | c :: _ => .error (.unknown (String.ofList ['-', c]))

def readValue (p : Progress) (value : String) : Except UsageError Progress :=
  match p.awaits, p.pending with
  | true, some (setting, values) =>
    .ok { p with pending := some (setting, values ++ [value]), awaits := setting = .documents }
  | _, _ => .error (.unknown value)

def read (p : Progress) (argument : String) : Except UsageError Progress :=
  if p.closed then .error (.unknown argument)
  else match argument.toList with
    | ['-', '-'] => .ok { p with closed := true }
    | '-' :: '-' :: text => p.readLong text
    | '-' :: c :: rest => p.readShort (c :: rest)
    | _ => p.readValue argument

end Progress

def Arguments.ofList (args : List String) : Except UsageError Arguments := do
  let p ← args.foldlM Progress.read {}
  (← p.settle).finish

end PdfSchema.CommandLine
