import PdfSchema.Text.Blank
import PdfSchema.Token.Pattern

namespace PdfSchema

inductive ScanError where
  /-- No token starts at the byte `offset`, where `rest` stands. -/
  | unrecognized (offset : Nat) (rest : String)
  | numberOutOfRange (raw : String)
  deriving DecidableEq, Repr

def ScanError.message : ScanError → String
  | .unrecognized offset rest => s!"unrecognized input at offset {offset}: `{rest}`"
  | .numberOutOfRange raw => s!"numeric literal `{raw}` is out of range"

namespace Token

def inRange (n : Int) : Bool := -0x8000000000000000 ≤ n && n < 0x8000000000000000

def ofRaw (kind : Kind) (raw : List Char) : Except ScanError Token :=
  let outside := match kind with
    | .integer => !inRange (integerValue raw)
    | .real => !(Double.ofNumeral raw).isFinite
    | _ => false
  if outside then .error (.numberOutOfRange (String.ofList raw))
  else .ok ⟨kind, String.ofList raw⟩

/-- The tokens of `s`, whose first character stands at the byte `offset`. -/
def scanFrom (offset : Nat) (s : List Char) : Except ScanError (List Token) :=
  match s with
  | [] => .ok []
  | c :: cs =>
    if Text.isBlank c then scanFrom (offset + c.utf8Size) cs
    else match first? (c :: cs) with
      | none => .error (.unrecognized offset (String.ofList (c :: cs)))
      | some (kind, n) => do
        let t ← ofRaw kind ((c :: cs).take n)
        let ts ← scanFrom (offset + Text.byteLength ((c :: cs).take n)) (cs.drop (n - 1))
        return t :: ts
termination_by s.length
decreasing_by all_goals (simp only [List.length_cons, List.length_drop]; omega)

def scan (s : String) : Except ScanError (List Token) := scanFrom 0 s.toList

end Token

end PdfSchema
