import PdfSchema.Json.Lexeme

namespace PdfSchema.Json

structure Left (s : List Lexeme) where
  lexemes : List Lexeme
  length_le : lexemes.length ≤ s.length

namespace Left

def nothing {s : List Lexeme} : Left s := ⟨[], Nat.zero_le _⟩

def tail {x : Lexeme} (s : List Lexeme) : Left (x :: s) := ⟨s, Nat.le_succ _⟩

def within {s t : List Lexeme} (r : Left s) (h : s.length ≤ t.length) : Left t :=
  ⟨r.lexemes, Nat.le_trans r.length_le h⟩

def after {x : Lexeme} {s : List Lexeme} (r : Left s) : Left (x :: s) := r.within (Nat.le_succ _)

end Left

/-- Why the members of an object break off: where a key should be, or after a key. -/
inductive Break where
  | atKey (fault : Fault)
  | afterKey (fault : Fault)

/-- A value as far as it can be read. -/
inductive Draft where
  | null
  | boolean (value : Bool)
  | integer (value : Int)
  | number (value : Double)
  | string (value : String)
  | array (items : List Draft) (broken : Option Fault)
  | object (members : List (String × Draft)) (broken : Option Break)
  | fault (fault : Fault)

namespace Draft

mutual

def ofJson : Json → Draft
  | .null => null
  | .boolean b => boolean b
  | .integer n => integer n
  | .number x => number x
  | .string s => string s
  | .array items => array (ofJsonItems items) none
  | .object members => object (ofJsonMembers members) none

def ofJsonItems : List Json → List Draft
  | [] => []
  | v :: vs => ofJson v :: ofJsonItems vs

def ofJsonMembers : List (String × Json) → List (String × Draft)
  | [] => []
  | (k, v) :: ms => (k, ofJson v) :: ofJsonMembers ms

end

def ofScalar (value : Except Fault Json) : Draft :=
  match value with
  | .ok (.integer n) => integer n
  | .ok (.number x) => number x
  | .ok (.boolean b) => boolean b
  | .ok _ => null
  | .error f => fault f

mutual

/-- Reads a value that may open `depth` containers inside one another, and gives what follows it.
Nothing follows a value that is broken. -/
def read (depth : Nat) (s : List Lexeme) : Draft × Left s :=
  match s with
  | [] => (fault .endInValue, Left.nothing)
  | .word value _ :: s => (ofScalar value, Left.tail s)
  | .string value _ :: s => match value with
    | .ok text => (string text, Left.tail s)
    | .error f => (fault f, Left.nothing)
  | .openArray :: s =>
    if depth = 0 then (array [] (some .tooDeep), Left.nothing)
    else
      let (items, broken, rest) := readItems (depth - 1) s
      (array items broken, rest.after)
  | .openObject :: s =>
    if depth = 0 then (object [] (some (.afterKey .tooDeep)), Left.nothing)
    else
      let (members, broken, rest) := readMembers (depth - 1) .endInObject s
      (object members broken, rest.after)
  | _ => (fault .expectedValue, Left.nothing)
termination_by (s.length, 0)

def readItems (depth : Nat) (s : List Lexeme) : List Draft × Option Fault × Left s :=
  match s with
  | [] => ([], some .endInList, Left.nothing)
  | .closeArray :: rest => ([], none, Left.tail rest)
  | x :: s =>
    let (v, ⟨rest, h⟩) := read depth (x :: s)
    match rest, h with
    | .closeArray :: rest, h => ([v], none, ⟨rest, Nat.le_of_succ_le h⟩)
    | .comma :: .closeArray :: _, _ => ([v], some .trailingComma, Left.nothing)
    | [.comma], _ => ([v], some .endInValue, Left.nothing)
    | .comma :: rest, h =>
      let (vs, broken, rest') := readItems depth rest
      (v :: vs, broken, rest'.within (Nat.le_of_succ_le h))
    | [], _ => ([v], some .endInList, Left.nothing)
    | _, _ => ([v], some .expectedItem, Left.nothing)
termination_by (s.length, 1)

def readMembers (depth : Nat) (atEnd : Fault) (s : List Lexeme) :
    List (String × Draft) × Option Break × Left s :=
  match s with
  | [] => ([], some (.atKey atEnd), Left.nothing)
  | .closeObject :: rest => ([], none, Left.tail rest)
  | .string (.error f) _ :: _ => ([], some (.atKey f), Left.nothing)
  | .string (.ok key) _ :: .colon :: s =>
    let (v, ⟨rest, h⟩) := read depth s
    match rest, h with
    | .closeObject :: rest, h =>
      ([(key, v)], none, (Left.mk rest (Nat.le_of_succ_le h)).after.after)
    | .comma :: .closeObject :: _, _ => ([(key, v)], some (.atKey .trailingComma), Left.nothing)
    | .comma :: rest, h =>
      have : rest.length < s.length := h
      let (ms, broken, rest') := readMembers depth .endInValue rest
      ((key, v) :: ms, broken, (rest'.within (Nat.le_of_succ_le h)).after.after)
    | [], _ => ([(key, v)], some (.atKey .endInObject), Left.nothing)
    | _, _ => ([(key, v)], some (.atKey .expectedMember), Left.nothing)
  | [.string (.ok _) _] => ([], some (.afterKey .endInObject), Left.nothing)
  | .string (.ok _) _ :: _ => ([], some (.afterKey .expectedColon), Left.nothing)
  | _ => ([], some (.atKey .keyNotString), Left.nothing)
termination_by (s.length, 1)

end

end Draft

inductive Enclosure where
  | array
  | object
  deriving DecidableEq, Repr

mutual

/-- Skips a value inside `outer`, and what is left of `outer` after it. -/
def skipValue (outer : List Enclosure) (s : List Lexeme) : Except Fault (Left s) :=
  match s with
  | [] => .error .endInValue
  | .openArray :: s => do return (← skipOpened outer .array s).after
  | .openObject :: s => do return (← skipOpened outer .object s).after
  | .string _ fault :: s | .word _ fault :: s => match fault with
    | some f => .error f
    | none => do return (← skipRest outer s).after
  | _ => .error .expectedValue
termination_by (s.length, 0)

def skipMember (outer : List Enclosure) (s : List Lexeme) : Except Fault (Left s) :=
  match s with
  | [] => .error .endInObject
  | .string _ (some f) :: _ => .error f
  | .string _ none :: .colon :: s => do return (← skipValue outer s).after.after
  | [.string _ none] => .error .endInObject
  | .string _ none :: _ => .error .expectedColon
  | _ => .error .keyNotString
termination_by (s.length, 0)

def skipOpened (outer : List Enclosure) (e : Enclosure) (s : List Lexeme) :
    Except Fault (Left s) :=
  match e, s with
  | .array, [] => .error .endInList
  | .object, [] => .error .endInObject
  | .array, .closeArray :: s => do return (← skipRest outer s).after
  | .object, .closeObject :: s => do return (← skipRest outer s).after
  | .array, s => skipValue (.array :: outer) s
  | .object, s => skipMember (.object :: outer) s
termination_by (s.length, 1)

def skipRest (outer : List Enclosure) (s : List Lexeme) : Except Fault (Left s) :=
  match outer, s with
  | [], s => .ok ⟨s, Nat.le_refl _⟩
  | .array :: _, [] => .error .endInList
  | .object :: _, [] => .error .endInObject
  | .array :: outer, .comma :: s => do return (← skipValue (.array :: outer) s).after
  | .object :: outer, .comma :: s => do return (← skipMember (.object :: outer) s).after
  | .array :: outer, .closeArray :: s => do return (← skipRest outer s).after
  | .object :: outer, .closeObject :: s => do return (← skipRest outer s).after
  | .array :: _, _ => .error .expectedItem
  | .object :: _, _ => .error .expectedMember
termination_by (s.length, 0)

end

def maxDepth : Nat := 127

end PdfSchema.Json
