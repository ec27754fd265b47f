import PdfSchema.Document.Basic
import PdfSchema.Row.Basic

namespace PdfSchema

namespace Match

inductive Class where
  | declared
  | extra
  | unmatched
  deriving DecidableEq, Repr

namespace Class

def all : List Class := [declared, extra, unmatched]

def label : Class → String
  | declared => "matched-schema"
  | extra => "matched-but-extra"
  | unmatched => "unmatched"

end Class

/-- The row of the wildcard `*`, for keys and indices that no other row speaks about. -/
def lookupWildcard (object : SchemaObject) : Option Row × Class :=
  match object.wildcard? with
  | some row => (some row, .extra)
  | none => (none, .unmatched)

def lookupKey (object : Option SchemaObject) (key : String) : Option Row × Class :=
  match object with
  | none => (none, .unmatched)
  | some object => match object.get? key with
    | some row => (some row, .declared)
    | none => lookupWildcard object

def isRepeatingKey (key : String) : Bool :=
  match key.toList.reverse with
  | '*' :: digits => !digits.isEmpty && digits.all Char.isDigit
  | _ => false

def repeatingRows (object : SchemaObject) : List Row :=
  (object.pairs.filter fun p => isRepeatingKey p.1).map Prod.snd

/-- The row of an index in an array: its own row, or the repeating rows in turn, or the wildcard. -/
def lookupIndex (object : Option SchemaObject) (index : Nat) : Option Row × Class :=
  match object with
  | none => (none, .unmatched)
  | some object => match object.get? (toString index) with
    | some row => (some row, .declared)
    | none =>
      let rows := repeatingRows object
      match rows[index % rows.length]? with
      | some row => (some row, .declared)
      | none => lookupWildcard object

def accepts (type : ValueType) (kind : PdfValue.Kind) : Bool :=
  match type with
  | .dictionary | .nameTree | .numberTree => kind = .dictionary
  | .stream => kind = .stream
  | .array | .matrix | .rectangle => kind = .array
  | .name => kind = .name
  | .string | .stringAscii | .stringByte | .stringText | .date => kind = .string
  | .boolean => kind = .boolean
  | .integer | .bitmask => kind = .integer
  | .number => kind = .integer || kind = .number
  | .null => kind = .null

/-- The first alternative among `types` that accepts the kind, where `index` numbers the first of
them. -/
def alternativeFrom? (kind : PdfValue.Kind) (index : Nat) :
    List TypeEntry → Option (Nat × ValueType)
  | [] => none
  | t :: ts => match t.valueType? with
    | some type =>
      if accepts type kind then some (index, type) else alternativeFrom? kind (index + 1) ts
    | none => alternativeFrom? kind (index + 1) ts

def alternative? (row : Row) (kind : PdfValue.Kind) : Option (Nat × ValueType) :=
  alternativeFrom? kind 0 row.types

def score (object : SchemaObject) (v : PdfValue) : Nat :=
  (v.entries?.getD []).countP fun e => object.contains e.1

/-- The better of two candidates; the first one unless the second one has the higher score. -/
def better (best : Option (String × Nat)) (candidate : String × Nat) : Option (String × Nat) :=
  match best with
  | none => some candidate
  | some b => if candidate.2 > b.2 then some candidate else some b

/-- The object of the schema, among those that an alternative leads to, that declares the most keys
of the value. -/
def chooseLink (s : Schema) (row : Row) (alternative : Nat) (v : PdfValue) : Option String :=
  let candidates := (row.linksFor alternative).filterMap fun target => do
    let name ← target.objectName?
    let object ← s.get? name
    return (name, score object v)
  (candidates.foldl better none).map Prod.fst

end Match

end PdfSchema
