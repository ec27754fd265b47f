import PdfSchema.Document.Decoding

namespace PdfSchema

/-- Why a language of filters refuses a text, with the code of each part that is at fault. -/
inductive FilterRefusal where
  | malformed (faults : List (String × String))
  | undefinedNames (parts : List (String × List (String × String)))
  deriving DecidableEq, Repr

def FilterRefusal.message : FilterRefusal → String
  | malformed faults =>
    String.join (faults.map fun (code, fault) => s!"parse error: {fault} in `{code}`\n")
  | undefinedNames parts => String.join (parts.map fun (code, names) =>
      String.join (names.map fun (name, use) => s!"undefined `{name}`: {use} in `{code}`\n"))

/-- A language that filters are written in. It is no part of the program: what is known of it is
that a text, if it is a filter, has outputs for a value, one after the other, each the text of a
JSON value or the words of a failure. -/
structure FilterLanguage where
  run : String → Json → Except FilterRefusal (List (Except String String))

inductive FilterError where
  | refused (refusal : FilterRefusal)
  | failed (words : String)
  | unreadable (error : DecodeError)
  | outputCount (filter : String) (count : Nat)
  deriving DecidableEq, Repr

def FilterError.message : FilterError → String
  | refused r => r.message
  | failed words => words
  | unreadable e => e.cause.message
  | outputCount filter count =>
    s!"jq filter `{filter}` produced {count} outputs, expected exactly one"

namespace FilterLanguage

/-- An output counts as it reads back from its text, so that one that is nested too deeply is
refused. -/
def readBack : Except String String → Except FilterError Json
  | .error words => .error (.failed words)
  | .ok text => (Decoding.jsonOfText text).mapError .unreadable

def outputs (language : FilterLanguage) (filter : String) (v : Json) :
    Except FilterError (List Json) := do
  (← (language.run filter v).mapError .refused).mapM readBack

def output (language : FilterLanguage) (filter : String) (v : Json) : Except FilterError Json := do
  match ← language.outputs filter v with
  | [w] => return w
  | ws => .error (.outputCount filter ws.length)

end FilterLanguage

end PdfSchema
