import PdfSchema.Diagnostic
import PdfSchema.Reachability
import PdfSchema.Row.Cell
import PdfSchema.Text.Quoted

namespace PdfSchema

namespace Consistency

inductive LiteralProblem where
  | schemaBoolean (value : String)
  | unlike (value : String) (type : ValueType)
  deriving DecidableEq, Repr

def LiteralProblem.message : LiteralProblem → String
  | schemaBoolean value => s!"`{value}` uses the schema's TRUE/FALSE instead of a PDF boolean"
  | unlike value type => s!"`{value}` does not look like a {type.label} value"

inductive Finding where
  | emptyObject
  | wildcardNotLast
  | badKeyName (key : String)
  | wildcardRequired
  | unknownType (name : String)
  | noType
  | unsortedTypes (names : List String)
  | notCall (column : Column) (text : String)
  | functionNotAllowed (column : Column) (name : String) (allowed : List String)
  | badVersion (column : Column) (text : String)
  | badFlag (column : Column) (text : String) (allowed : List String)
  | badInheritable (text : String)
  | streamNotIndirect
  | alternativeCount (column : Column) (entries types : Nat)
  | badDefault (problem : LiteralProblem)
  | badPossible (problem : LiteralProblem)
  | defaultNotPossible (value : String)
  | missingLink (type : String)
  | unexpectedLink (type : String) (targets : List String)
  | brokenLink (name : String)
  | unknownVariable (column : Column) (name object : String)
  | missingParent
  | parentNotDictionary
  deriving DecidableEq, Repr

namespace Finding

def severity : Finding → Diagnostic.Severity
  | unknownVariable _ _ _ => .warning
  | _ => .error

def functionCode : Column → String
  | .type => "bad-type-function"
  | .sinceVersion => "bad-version-function"
  | _ => "bad-link-function"

def code : Finding → String
  | emptyObject => "empty-object"
  | wildcardNotLast => "wildcard-not-last"
  | badKeyName _ => "bad-key-name"
  | wildcardRequired => "wildcard-required"
  | unknownType _ | noType => "unknown-type"
  | unsortedTypes _ => "unsorted-types"
  | notCall column _ => functionCode column
  | functionNotAllowed column _ _ => functionCode column
  | badVersion _ _ => "bad-version"
  | badFlag column _ _ => if column = .required then "bad-required" else "bad-indirect"
  | badInheritable _ => "bad-inheritable"
  | streamNotIndirect => "stream-not-indirect"
  | alternativeCount _ _ _ => "alternative-count"
  | badDefault _ => "bad-default-value"
  | badPossible _ => "bad-possible-value"
  | defaultNotPossible _ => "default-not-possible"
  | missingLink _ => "missing-link"
  | unexpectedLink _ _ => "unexpected-link"
  | brokenLink _ => "broken-link"
  | unknownVariable _ _ _ => "unknown-variable"
  | missingParent | parentNotDictionary => "missing-parent"

def message : Finding → String
  | emptyObject => "object has no keys"
  | wildcardNotLast => "wildcard key `*` is not the last key"
  | badKeyName key => s!"key `{key}` has unexpected characters"
  | wildcardRequired => "Required must be FALSE for a wildcard key"
  | unknownType name => s!"unknown type `{name}`"
  | noType => "no type inside wrapper"
  | unsortedTypes names => "types " ++ ";".intercalate names ++ " are not alphabetically sorted"
  | notCall _ text => s!"expected a function, found `{text}`"
  | functionNotAllowed _ name allowed =>
    s!"`fn:{name}` is not allowed here (expected one of " ++ ", ".intercalate allowed ++ ")"
  | badVersion _ text => s!"`{text}` is not a PDF version"
  | badFlag _ text allowed =>
    s!"`{text}` is not FALSE, TRUE or one of fn:" ++ ", fn:".intercalate allowed
  | badInheritable text => s!"Inheritable must be TRUE or FALSE, found `{text}`"
  | streamNotIndirect => "type stream requires IndirectReference TRUE"
  | alternativeCount column entries types =>
    s!"{entries} {column.label} entries for {types} types"
  | badDefault problem | badPossible problem => problem.message
  | defaultNotPossible value => s!"DefaultValue `{value}` is not one of the PossibleValues"
  | missingLink type => s!"complex type {type} is unlinked"
  | unexpectedLink type targets =>
    s!"basic type {type} should not be linked: " ++ ",".intercalate targets
  | brokenLink name => s!"broken link to `{name}`"
  | unknownVariable _ name object => s!"referenced variable @{name} is not a key of {object}"
  | missingParent => "at least one required inheritable key but no Parent key"
  | parentNotDictionary =>
    "at least one required inheritable key but Parent is not a dictionary"

def column? : Finding → Option Column
  | emptyObject | wildcardNotLast | missingParent => none
  | badKeyName _ => some .key
  | wildcardRequired => some .required
  | unknownType _ | noType | unsortedTypes _ | parentNotDictionary => some .type
  | notCall column _ | functionNotAllowed column _ _ | badVersion column _ => some column
  | badFlag column _ _ | alternativeCount column _ _ | unknownVariable column _ _ => some column
  | badInheritable _ => some .inheritable
  | streamNotIndirect => some .indirectReference
  | badDefault _ | defaultNotPossible _ => some .defaultValue
  | badPossible _ => some .possibleValues
  | missingLink _ | unexpectedLink _ _ | brokenLink _ => some .link

def diagnostic (object : String) (key : Option String) (f : Finding) : Diagnostic :=
  { kind := .consistency
    severity := f.severity
    code := f.code
    location := { object := some object, key, column := f.column?.map Column.label }
    message := f.message }

end Finding

def isKeyChar (c : Char) : Bool := c.isAlphanum || c = '_' || c = '-' || c = '.'

def isKeyName (key : String) : Bool :=
  let rest := key.toList.dropWhile isKeyChar
  rest = [] || rest = ['*']

def checkKey (key : String) (row : Row) : List Finding :=
  (if isKeyName key then [] else [.badKeyName key]) ++
  (if key.toList.contains '*' && row.mayBeRequired then [.wildcardRequired] else [])

/-- Checks that a guard is a call of an allowed function, and its first argument, if it is a number,
a version. -/
def checkGuard (column : Column) (allowed : List String) (f : Formula) : List Finding :=
  match Formula.call? f with
  | none => [.notCall column (Formula.render f)]
  | some (name, args) =>
    (if allowed.contains name then [] else [.functionNotAllowed column name allowed]) ++
    (match args.head?.bind Term.leaf? with
      | some t =>
        if t.kind = .real && !isFormatVersion t.raw then [.badVersion column t.raw] else []
      | none => [])

def checkTypeEntry (t : TypeEntry) : List Finding :=
  (match t with
    | .guarded f => checkGuard .type typeWrappers f
    | .named _ => []) ++
  (match t.name? with
    | some name => if (ValueType.ofLabel? name).isSome then [] else [.unknownType name]
    | none => [.noType])

def isSorted : List String → Bool
  | a :: b :: rest => a ≤ b && isSorted (b :: rest)
  | _ => true

def checkTypes (row : Row) : List Finding :=
  let names := row.types.filterMap TypeEntry.name?
  row.types.flatMap checkTypeEntry ++ (if isSorted names then [] else [.unsortedTypes names])

def checkVersion (column : Column) (text : String) : List Finding :=
  if isFormatVersion text then [] else [.badVersion column text]

def checkVersions (row : Row) : List Finding :=
  (match row.sinceVersion with
    | .version text => checkVersion .sinceVersion text
    | .formula f => checkGuard .sinceVersion sinceVersionFunctions f) ++
  (match row.deprecatedIn with
    | some text => checkVersion .deprecatedIn text
    | none => [])

def checkFlag (column : Column) (allowed : List String) (f : Flag) : List Finding :=
  match f with
  | .literal _ => []
  | .formula formula =>
    if (Formula.call? formula).any fun (name, _) => allowed.contains name then []
    else [.badFlag column (Formula.render formula) allowed]
  | .invalid text => [.badFlag column text allowed]

/-- A stream alternative must be indirect; its own entry counts, or else the first one. -/
def checkIndirect (row : Row) : List Finding :=
  row.types.zipIdx.flatMap fun (t, i) =>
    if t.valueType? = some .stream &&
        !(row.indirectReference[i]?.or row.indirectReference.head?).any Flag.isTrue then
      [.streamNotIndirect]
    else []

def checkFlags (row : Row) : List Finding :=
  row.required.flatMap (checkFlag .required requiredFunctions) ++
  row.indirectReference.flatMap (checkFlag .indirectReference indirectFunctions) ++
  (match row.inheritable with
    | .literal _ => []
    | f => [.badInheritable f.render]) ++
  checkIndirect row

def fits (type : ValueType) (v : Value) : Bool :=
  let scalar (p : Token.Kind → Bool) : Bool := match v with
    | .scalar t => p t.kind
    | _ => false
  match type with
  | .array | .matrix | .rectangle => match v with
    | .array _ => true
    | _ => false
  | .string | .stringAscii | .stringByte | .stringText | .date => match v with
    | .text _ => true
    | _ => false
  | .boolean => scalar fun k => k = .trueWord || k = .falseWord
  | .integer | .bitmask => scalar (· = .integer)
  | .number => scalar fun k => k = .integer || k = .real
  | .name => scalar (· = .keyName)
  | _ => true

/-- What is wrong with a literal of a type; a formula is never wrong. -/
def literalProblem (type : ValueType) (v : Value) : Option LiteralProblem :=
  match v with
  | .formula _ => none
  | .scalar t =>
    if t.raw = "TRUE" ∨ t.raw = "FALSE" then some (.schemaBoolean v.render)
    else if fits type v then none
    else some (.unlike v.render type)
  | _ => if fits type v then none else some (.unlike v.render type)

def checkCount {α : Type} (column : Column) (row : Row) (entries : Option (List α)) :
    List Finding :=
  match entries with
  | none => []
  | some entries =>
    if entries.length = row.types.length then []
    else [.alternativeCount column entries.length row.types.length]

/-- A literal default must be one of the possible values, if all of these are literal. -/
def checkDefault (v : Value) (possible : List Value) : List Finding :=
  if v.isLiteral && Value.allLiteral possible && !possible.any (·.render = v.render) then
    [.defaultNotPossible v.render]
  else []

def checkAlternative (row : Row) (t : TypeEntry) (i : Nat) : List Finding :=
  let default? := ((row.defaultValue.getD [])[i]?).join
  let possible? := ((row.possibleValues.getD [])[i]?).join
  let problems (type : ValueType) : List Finding :=
    ((default?.bind (literalProblem type)).map .badDefault).toList ++
    ((possible?.getD []).filterMap (literalProblem type)).map .badPossible
  (match t.valueType? with
    | some type => problems type
    | none => []) ++
  (match default?, possible? with
    | some v, some possible => checkDefault v possible
    | _, _ => [])

def checkValues (row : Row) : List Finding :=
  checkCount .defaultValue row row.defaultValue ++
  checkCount .possibleValues row row.possibleValues ++
  row.types.zipIdx.flatMap fun (t, i) => checkAlternative row t i

def checkTarget (s : Schema) (target : LinkTarget) : List Finding :=
  (match target with
    | .guarded f => checkGuard .link linkWrappers f
    | .object _ => []) ++
  (match target.objectName? with
    | some name => if s.contains name then [] else [.brokenLink name]
    | none => [])

/-- The links of an alternative of the type `name`: there must be some exactly if the type asks for
them. -/
def checkLinked (name : String) (targets : List LinkTarget) : List Finding :=
  if (ValueType.ofLabel? name).any ValueType.requiresLink then
    if targets.isEmpty then [.missingLink name] else []
  else if targets.isEmpty then []
  else [.unexpectedLink name (targets.map LinkTarget.render)]

def checkLinks (s : Schema) (row : Row) : List Finding :=
  checkCount .link row row.link ++
  row.types.zipIdx.flatMap fun (t, i) => match t.name? with
    | none => []
    | some name => checkLinked name (row.linksFor i) ++ (row.linksFor i).flatMap (checkTarget s)

/-- The names after `@`, except those at the end of a key path. -/
def variableNames (previous : Option Token.Kind) : List Token → List String
  | [] => []
  | t :: ts =>
    if t.kind = .keyValue ∧ previous ≠ some .keyPath then
      String.ofList (t.raw.toList.drop 1) :: variableNames (some t.kind) ts
    else variableNames (some t.kind) ts

/-- Variables must be keys of the object itself; each is named once a column. -/
def checkVariables (name : String) (object : SchemaObject) (row : Row) : List Finding :=
  let used := row.formulas.flatMap fun (column, f) =>
    (variableNames none (Formula.leaves f)).map (column, ·)
  let unknown := used.filter fun (_, v) => !object.contains v
  unknown.eraseDups.map fun (column, v) => .unknownVariable column v name

def checkRow (s : Schema) (name : String) (object : SchemaObject) (key : String) (row : Row) :
    List Finding :=
  checkKey key row ++ checkTypes row ++ checkVersions row ++ checkFlags row ++ checkValues row ++
    checkLinks s row ++ checkVariables name object row

/-- Required values that may be inherited need a parent to inherit them from. -/
def checkParent (object : SchemaObject) : List (Option String × Finding) :=
  if object.values.any fun row => row.inheritable.isTrue && row.mayBeRequired then
    match object.get? "Parent" with
    | none => [(none, .missingParent)]
    | some parent =>
      if parent.types.any (·.valueType? = some .dictionary) then []
      else [(some "Parent", .parentNotDictionary)]
  else []

def checkObject (s : Schema) (name : String) (object : SchemaObject) :
    List (Option String × Finding) :=
  if object.isEmpty then [(none, .emptyObject)]
  else
    (if object.contains "*" && object.keys.getLast? ≠ some "*" then
      [(some "*", .wildcardNotLast)] else []) ++
    (object.pairs.flatMap fun (key, row) =>
      (checkRow s name object key row).map (some key, ·)) ++
    checkParent object

def checkReachability (s : Schema) (roots : List String) : List Diagnostic :=
  (if roots.any s.contains then []
    else [⟨.consistency, .warning, "missing-root", {},
      "none of the root objects " ++ Text.quotedList roots ++ " exist"⟩]) ++
  (s.orphans roots).map fun name =>
    ⟨.consistency, .error, "orphan-object", { object := some name },
      s!"`{name}` is not reachable from any root"⟩

end Consistency

open Consistency in
def Schema.validate (s : Schema) (roots : List String) : List Diagnostic :=
  (s.pairs.flatMap fun (name, object) =>
    (checkObject s name object).map fun (key, f) => f.diagnostic name key) ++
  checkReachability s roots

end PdfSchema
