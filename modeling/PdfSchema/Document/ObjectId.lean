import PdfSchema.Text.Blank
import PdfSchema.Text.Numeral

namespace PdfSchema

structure ObjectId where
  number : UInt32
  generation : UInt16
  deriving DecidableEq, Repr, Inhabited

namespace ObjectId

def render (id : ObjectId) : String :=
  toString id.number.toNat ++ " " ++ toString id.generation.toNat

def ofWords? : List (List Char) → Option ObjectId
  | [number] => do
    let n ← Text.natural? UInt32.size number
    return ⟨.ofNat n, 0⟩
  | [number, generation] => do
    let n ← Text.natural? UInt32.size number
    let g ← Text.natural? UInt16.size generation
    return ⟨.ofNat n, .ofNat g⟩
  | _ => none

/-- Reads a number and a generation, which is 0 if it is left out. -/
def parse? (s : String) : Option ObjectId := ofWords? (Text.words s.toList)

def badMessage (s : String) : String :=
  s!"`{s}` is not an object reference (expected \"N G\")"

end ObjectId

end PdfSchema
