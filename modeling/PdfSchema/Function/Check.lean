import PdfSchema.Function.Shape

namespace PdfSchema

namespace Function

def table : List (String × Shape) :=
  [("AlwaysUnencrypted", .nothing),
    ("ArrayLength", .arrayLength),
    ("ArraySortAscending", .sortStep),
    ("BeforeVersion", .versioned),
    ("BitClear", .bit),
    ("BitSet", .bit),
    ("BitsClear", .bitRange),
    ("BitsSet", .bitRange),
    ("Contains", .contains),
    ("DefaultValue", .defaultValue),
    ("Deprecated", .versioned),
    ("Eval", .expression),
    ("Extension", .extension),
    ("FileSize", .nothing),
    ("FontHasLatinChars", .nothing),
    ("HasProcessColorants", .keyReference),
    ("HasSpotColorants", .keyReference),
    ("Ignore", .optionalExpression),
    ("ImageIsStructContentItem", .nothing),
    ("ImplementationDependent", .nothing),
    ("InKeyMap", .keyReference),
    ("InNameTree", .keyReference),
    ("IsAssociatedFile", .nothing),
    ("IsEncryptedWrapper", .nothing),
    ("IsFieldName", .keyReference),
    ("IsHexString", .nothing),
    ("IsLastInNumberFormatArray", .keyReference),
    ("IsMeaningful", .expression),
    ("IsPDFTagged", .nothing),
    ("IsPDFVersion", .versioned),
    ("IsPresent", .presence),
    ("IsRequired", .expression),
    ("KeyNameIsColorant", .nothing),
    ("MustBeDirect", .optionalExpression),
    ("MustBeIndirect", .optionalExpression),
    ("NoCycle", .nothing),
    ("Not", .expression),
    ("NotPresent", .presence),
    ("NotStandard14Font", .nothing),
    ("NumberOfPages", .nothing),
    ("PageContainsStructContentItems", .nothing),
    ("PageProperty", .pageProperty),
    ("RectHeight", .keyReference),
    ("RectWidth", .keyReference),
    ("RequiredValue", .requiredValue),
    ("SinceVersion", .versioned),
    ("StreamLength", .keyReference),
    ("StringLength", .keyReference)]

def shape? (name : String) : Option Shape := table.lookup name

def isKnown (name : String) : Bool := (shape? name).isSome

end Function

inductive ShapeError where
  | unknownFunction (name : String)
  | badArguments (name : String) (args : String)
  deriving DecidableEq, Repr

def ShapeError.message : ShapeError → String
  | .unknownFunction name => s!"unknown function `fn:{name}`"
  | .badArguments name args => s!"`fn:{name}` has malformed arguments: {args}"

def checkCall (name : String) (args : List Term) : Option ShapeError :=
  match Function.shape? name with
  | none => some (.unknownFunction name)
  | some shape =>
    if shape.accepts args then none
    else some (.badArguments name (",".intercalate (args.map Term.render)))

/-- The errors of all calls in a formula, those of outer calls first. -/
def Formula.shapeErrors (f : Formula) : List ShapeError :=
  (Formula.calls f).filterMap fun (name, args) => checkCall name args

end PdfSchema
