import PdfSchema.Json.Basic
import PdfSchema.Row.Basic

namespace PdfSchema

/-- A literal as its value, any other token as its text. -/
def Token.toJson (t : Token) : Json :=
  match t.literal with
  | some (.integer n) => .integer n
  | some (.real x) => .number x
  | some (.boolean b) => .boolean b
  | some (.text s) => .string s
  | some (.keyName s) => .string s
  | none => .string t.raw

mutual

def Term.toJson : Term → Json
  | .leaf t => t.toJson
  | .call name args =>
    .object [("function", .string name), ("args", .array (Formula.toJsonItems args))]
  | .paren body => .object [("group", .array (Formula.toJsonItems body))]
  | .bracket body => .array (Formula.toJsonItems body)

def Formula.toJsonItems : List Term → List Json
  | [] => []
  | t :: ts => t.toJson :: Formula.toJsonItems ts

end

/-- A single term stands for itself, several for an array. -/
def Formula.toJson : Formula → Json
  | [t] => t.toJson
  | f => .array (Formula.toJsonItems f)

def TypeEntry.toJson : TypeEntry → Json
  | .named name => .string name
  | .guarded f => Formula.toJson f

def Flag.toJson : Flag → Json
  | .literal b => .boolean b
  | .formula f => Formula.toJson f
  | .invalid s => .string s

def SinceVersion.toJson : SinceVersion → Json
  | .version s => .string s
  | .formula f => Formula.toJson f

def LinkTarget.toJson : LinkTarget → Json
  | .object name => .string name
  | .guarded f => Formula.toJson f

namespace Value

mutual

def toJson : Value → Json
  | scalar t => t.toJson
  | text s => .string s
  | array items => .array (toJsonItems items)
  | formula f => Formula.toJson f

def toJsonItems : List Value → List Json
  | [] => []
  | v :: vs => v.toJson :: toJsonItems vs

end

end Value

def listedEntries {α : Type} (f : α → Json) (as : List α) : Json := .array (as.map f)

def optionalEntries {α : Type} (f : α → Json) : Option (List (Option α)) → Json :=
  Json.orNull fun entries => listedEntries (Json.orNull f) entries

def Row.cellToJson (r : Row) : Column → Json
  | .key => .null
  | .type => listedEntries TypeEntry.toJson r.types
  | .sinceVersion => r.sinceVersion.toJson
  | .deprecatedIn => Json.orNull .string r.deprecatedIn
  | .required => listedEntries Flag.toJson r.required
  | .indirectReference => listedEntries Flag.toJson r.indirectReference
  | .inheritable => r.inheritable.toJson
  | .defaultValue => optionalEntries Value.toJson r.defaultValue
  | .possibleValues => optionalEntries (listedEntries Value.toJson) r.possibleValues
  | .specialCase => optionalEntries Formula.toJson r.specialCase
  | .link => optionalEntries (listedEntries LinkTarget.toJson) r.link
  | .note => Json.orNull .string r.note

def Row.toJson (r : Row) : Json :=
  .object ((Column.all.drop 1).map fun c => (c.label, r.cellToJson c))

def SchemaObject.toJson (o : SchemaObject) : Json :=
  .object (o.pairs.map fun (key, row) => (key, row.toJson))

def Schema.toJson (s : Schema) : Json :=
  .object (s.pairs.map fun (name, object) => (name, SchemaObject.toJson object))

end PdfSchema
