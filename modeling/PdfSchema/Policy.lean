namespace PdfSchema

inductive ValueType where
  | array
  | bitmask
  | boolean
  | date
  | dictionary
  | integer
  | matrix
  | name
  | nameTree
  | null
  | number
  | numberTree
  | rectangle
  | stream
  | string
  | stringAscii
  | stringByte
  | stringText
  deriving DecidableEq, Repr

namespace ValueType

def all : List ValueType :=
  [array, bitmask, boolean, date, dictionary, integer, matrix, name, nameTree, null, number,
    numberTree, rectangle, stream, string, stringAscii, stringByte, stringText]

def label : ValueType → String
  | array => "array"
  | bitmask => "bitmask"
  | boolean => "boolean"
  | date => "date"
  | dictionary => "dictionary"
  | integer => "integer"
  | matrix => "matrix"
  | name => "name"
  | nameTree => "name-tree"
  | null => "null"
  | number => "number"
  | numberTree => "number-tree"
  | rectangle => "rectangle"
  | stream => "stream"
  | string => "string"
  | stringAscii => "string-ascii"
  | stringByte => "string-byte"
  | stringText => "string-text"

def ofLabel? (s : String) : Option ValueType := all.find? (·.label = s)

/-- The types whose values are laid out by further schema objects. -/
def requiresLink : ValueType → Bool
  | array | dictionary | nameTree | numberTree | stream => true
  | _ => false

def isText : ValueType → Bool
  | string | stringAscii | stringByte | stringText | date => true
  | _ => false

end ValueType

def formatVersions : List String :=
  ["1.0", "1.1", "1.2", "1.3", "1.4", "1.5", "1.6", "1.7", "2.0"]

def isFormatVersion (s : String) : Bool := formatVersions.contains s

def defaultRoots : List String := ["FileTrailer", "XRefStream"]

def defaultMaxDepth : Nat := 512

inductive Column where
  | key
  | type
  | sinceVersion
  | deprecatedIn
  | required
  | indirectReference
  | inheritable
  | defaultValue
  | possibleValues
  | specialCase
  | link
  | note
  deriving DecidableEq, Repr

namespace Column

def all : List Column :=
  [key, type, sinceVersion, deprecatedIn, required, indirectReference, inheritable, defaultValue,
    possibleValues, specialCase, link, note]

def label : Column → String
  | key => "Key"
  | type => "Type"
  | sinceVersion => "SinceVersion"
  | deprecatedIn => "DeprecatedIn"
  | required => "Required"
  | indirectReference => "IndirectReference"
  | inheritable => "Inheritable"
  | defaultValue => "DefaultValue"
  | possibleValues => "PossibleValues"
  | specialCase => "SpecialCase"
  | link => "Link"
  | note => "Note"

end Column

def typeWrappers : List String := ["SinceVersion", "Deprecated"]

/-- The functions whose last argument is the link that they guard. -/
def linkWrappers : List String := ["SinceVersion", "BeforeVersion", "IsPDFVersion", "Deprecated"]

def sinceVersionFunctions : List String := ["SinceVersion", "Extension"]

def requiredFunctions : List String := ["IsRequired"]

def indirectFunctions : List String := ["MustBeDirect", "MustBeIndirect"]

end PdfSchema
