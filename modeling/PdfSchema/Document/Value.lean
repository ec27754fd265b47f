import PdfSchema.Document.ObjectId
import PdfSchema.Double.Basic
import PdfSchema.KeyedList

namespace PdfSchema

inductive PdfValue where
  | dictionary (entries : List (String × PdfValue))
  | stream (entries : List (String × PdfValue)) (length : Nat)
  | array (items : List PdfValue)
  | name (text : String)
  | string (text : String)
  | boolean (value : Bool)
  | integer (value : Int)
  | number (value : Double)
  | null
  | reference (id : ObjectId)
  deriving Inhabited

namespace PdfValue

inductive Kind where
  | dictionary
  | stream
  | array
  | name
  | string
  | boolean
  | integer
  | number
  | null
  deriving DecidableEq, Repr

namespace Kind

def label : Kind → String
  | dictionary => "dictionary"
  | stream => "stream"
  | array => "array"
  | name => "name"
  | string => "string"
  | boolean => "boolean"
  | integer => "integer"
  | number => "number"
  | null => "null"

def isContainer : Kind → Bool
  | dictionary | stream | array => true
  | _ => false

def isNumeric : Kind → Bool
  | integer | number => true
  | _ => false

end Kind

/-- A reference that is not followed counts as null. -/
def kind : PdfValue → Kind
  | dictionary _ => .dictionary
  | stream _ _ => .stream
  | array _ => .array
  | name _ => .name
  | string _ => .string
  | boolean _ => .boolean
  | integer _ => .integer
  | number _ => .number
  | null | reference _ => .null

def entries? : PdfValue → Option (List (String × PdfValue))
  | dictionary es | stream es _ => some es
  | _ => none

def entry? (v : PdfValue) (key : String) : Option PdfValue :=
  v.entries?.bind (Pairs.get? · key)

def items? : PdfValue → Option (List PdfValue)
  | array items => some items
  | _ => none

def isReference : PdfValue → Bool
  | reference _ => true
  | _ => false

/-- The entries or the items of a container, each under its key or its index. -/
def children : PdfValue → List (String × PdfValue)
  | dictionary es | stream es _ => es
  | array items => items.zipIdx.map fun (v, i) => (toString i, v)
  | _ => []

mutual

def size : PdfValue → Nat
  | dictionary es => sizeEntries es + 1
  | stream es _ => sizeEntries es + 1
  | array items => sizeItems items + 1
  | name _ | string _ | boolean _ | integer _ | number _ | null | reference _ => 1

def sizeEntries : List (String × PdfValue) → Nat
  | [] => 0
  | (_, v) :: es => v.size + sizeEntries es

def sizeItems : List PdfValue → Nat
  | [] => 0
  | v :: vs => v.size + sizeItems vs

end

theorem sizeEntries_eq (es : List (String × PdfValue)) :
    sizeEntries es = sizeItems (es.map Prod.snd) := by
  induction es with
  | nil => rfl
  | cons e es ih => simp only [sizeEntries, sizeItems, List.map_cons, ih]

theorem sizeItems_append (a b : List PdfValue) :
    sizeItems (a ++ b) = sizeItems a + sizeItems b := by
  induction a with
  | nil => simp only [List.nil_append, sizeItems, Nat.zero_add]
  | cons v a ih => simp only [List.cons_append, sizeItems, ih, Nat.add_assoc]

theorem isContainer_of_mem_children {v : PdfValue} {e : String × PdfValue} (h : e ∈ v.children) :
    v.kind.isContainer = true := by
  cases v <;> first | rfl | cases h

theorem isReference_eq_false {v : PdfValue} (h : v.kind.isContainer = true) :
    v.isReference = false := by
  cases v <;> first | rfl | cases h

theorem size_pos (v : PdfValue) : 0 < v.size := by cases v <;> simp [size]

end PdfValue

end PdfSchema
