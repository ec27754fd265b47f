import PdfSchema.Text.Blank

namespace PdfSchema.Cell

def occursIn (w : List Char) : List Char → Bool
  | [] => w.isEmpty
  | c :: s => w.isPrefixOf (c :: s) || occursIn w s

def callsFunction (s : String) : Bool := occursIn ['f', 'n', ':'] s.toList

def alternatives (s : String) : List String :=
  (Text.splitBy (· = ';') s.toList).map fun piece => Text.trim (String.ofList piece)

def inBrackets? (s : String) : Option String :=
  match s.toList with
  | '[' :: rest =>
    if rest.getLast? = some ']' then some (String.ofList rest.dropLast) else none
  | _ => none

def alternative? (s : String) : Option String :=
  let inner := (inBrackets? s).getD s
  if inner = "" then none else some inner

/-- The alternatives of a cell that may be empty. A cell with one alternative keeps its brackets if
`keepSingle` says so. -/
def optionalAlternatives (s : String) (keepSingle : Bool) : Option (List (Option String)) :=
  let s := Text.trim s
  if s = "" then none
  else if s.toList.contains ';' then some ((alternatives s).map alternative?)
  else if keepSingle then some [some s]
  else some [alternative? s]

/-- The pieces of `s` between the commas at depth zero, where `depth` is the number of brackets and
parentheses that are open already. -/
def topLevelPieces (depth : Int) : List Char → List (List Char)
  | [] => [[]]
  | c :: s =>
    if c = ',' ∧ depth = 0 then [] :: topLevelPieces depth s
    else
      let depth := if c = '[' ∨ c = '(' then depth + 1
        else if c = ']' ∨ c = ')' then depth - 1
        else depth
      match topLevelPieces depth s with
      | [] => [[c]]
      | piece :: pieces => (c :: piece) :: pieces

def items (s : String) : List String :=
  ((topLevelPieces 0 s.toList).map fun piece => Text.trim (String.ofList piece)).filter (· ≠ "")

def text? (s : String) : Option String :=
  let s := Text.trim s
  if s = "" then none else some s

end PdfSchema.Cell
