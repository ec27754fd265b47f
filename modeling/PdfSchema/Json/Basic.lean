import PdfSchema.Double.Decimal
import PdfSchema.KeyedList

namespace PdfSchema

inductive Json where
  | null
  | boolean (value : Bool)
  | integer (value : Int)
  | number (value : Double)
  | string (value : String)
  | array (items : List Json)
  | object (members : List (String × Json))
  deriving Inhabited

namespace Json

def orNull {α : Type} (f : α → Json) : Option α → Json
  | none => .null
  | some a => f a

end Json

end PdfSchema
