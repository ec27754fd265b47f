import PdfSchema.Document.Value
import PdfSchema.Json.Basic

namespace PdfSchema.PdfValue

mutual

def toJson : PdfValue → Json
  | dictionary es => .object (toJsonEntries es)
  | stream es length =>
    .object [("$stream", .object (toJsonEntries es)), ("$length", .integer length)]
  | array items => .array (toJsonItems items)
  | name text => .string ("/" ++ text)
  | string text => .string text
  | boolean b => .boolean b
  | integer n => .integer n
  | number x => .number x
  | null => .null
  | reference id => .object [("$ref", .string id.render)]

def toJsonItems : List PdfValue → List Json
  | [] => []
  | v :: vs => v.toJson :: toJsonItems vs

def toJsonEntries : List (String × PdfValue) → List (String × Json)
  | [] => []
  | (key, v) :: es => (key, v.toJson) :: toJsonEntries es

end

end PdfSchema.PdfValue
