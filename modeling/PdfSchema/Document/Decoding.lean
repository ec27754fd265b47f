import PdfSchema.Document.Value
import PdfSchema.Json.Draft
import PdfSchema.Json.Printer
import PdfSchema.Text.Quoted

namespace PdfSchema

namespace Decoding

inductive Segment where
  | member (key : String)
  | item (index : Nat)
  | unknown
  deriving DecidableEq, Repr

inductive Cause where
  | fault (fault : Json.Fault)
  | invalidType (found expected : String)
  | invalidValue (found expected : String)
  | invalidLength (length : Nat) (expected : String)
  | outOfRange (value : Int)
  | referenceWithMembers
  | streamWithMembers
  | streamNotDictionary
  | badReference (text : String)
  | duplicateField (name : String)
  | missingField (name : String)
  deriving DecidableEq, Repr

def Cause.message : Cause → String
  | fault f => f.message
  | invalidType found expected => s!"invalid type: {found}, expected {expected}"
  | invalidValue found expected => s!"invalid value: {found}, expected {expected}"
  | invalidLength length expected => s!"invalid length {length}, expected {expected}"
  | outOfRange value => s!"integer {value} is out of range"
  | referenceWithMembers => "`$ref` cannot carry other keys"
  | streamWithMembers => "`$stream` cannot carry other keys"
  | streamNotDictionary => "`$stream` must hold a dictionary"
  | badReference text => ObjectId.badMessage text
  | duplicateField name => s!"duplicate field `{name}`"
  | missingField name => s!"missing field `{name}`"

end Decoding

structure DecodeError where
  path : List Decoding.Segment
  cause : Decoding.Cause
  deriving DecidableEq, Repr

namespace DecodeError

/-- Members between points and indices in brackets; a lone point is the whole value. -/
def renderPath (path : List Decoding.Segment) : String :=
  let segment (first : Bool) : Decoding.Segment → String
    | .member key => (if first then "" else ".") ++ key
    | .item index => s!"[{index}]"
    | .unknown => (if first then "" else ".") ++ "?"
  match path with
  | [] => "."
  | s :: rest => segment true s ++ String.join (rest.map (segment false))

def message (e : DecodeError) : String :=
  s!"at JSON path {renderPath e.path} → {e.cause.message}"

def under (segment : Decoding.Segment) (e : DecodeError) : DecodeError :=
  { e with path := segment :: e.path }

end DecodeError

namespace Decoding

def fail {α : Type} (cause : Cause) : Except DecodeError α := .error ⟨[], cause⟩

def faultAt {α : Type} (path : List Segment) (f : Json.Fault) : Except DecodeError α :=
  .error ⟨path, .fault f⟩

def within {α : Type} (segment : Segment) (r : Except DecodeError α) : Except DecodeError α :=
  r.mapError (·.under segment)

def unexpected : Json.Draft → Except Json.Fault String
  | .null => .ok "null"
  | .boolean b => .ok s!"boolean `{b}`"
  | .integer n => .ok s!"integer `{n}`"
  | .number x => .ok s!"floating point `{Json.numeral x}`"
  | .string text => .ok ("string " ++ Text.quoted text)
  | .array _ _ => .ok "sequence"
  | .object _ _ => .ok "map"
  | .fault f => .error f

def wrongType {α : Type} (expected : String) (d : Json.Draft) : Except DecodeError α :=
  match unexpected d with
  | .ok found => fail (.invalidType found expected)
  | .error f => faultAt [] f

def text : Json.Draft → Except DecodeError String
  | .string text => .ok text
  | d => wrongType "a string" d

def length : Json.Draft → Except DecodeError Nat
  | .integer n =>
    if 0 ≤ n then .ok n.toNat else fail (.invalidValue s!"integer `{n}`" "u64")
  | d => wrongType "u64" d

/-- The members of an object, those with a meaning of their own apart. -/
structure Members where
  entries : List (String × PdfValue) := []
  reference : Option String := none
  stream : Option (List (String × PdfValue)) := none
  length : Option Nat := none

def Members.value (m : Members) : Except DecodeError PdfValue :=
  match m.reference, m.stream with
  | some r, none =>
    if m.entries.isEmpty then match ObjectId.parse? r with
      | some id => .ok (.reference id)
      | none => fail (.badReference r)
    else fail .referenceWithMembers
  | some _, some _ => fail .referenceWithMembers
  | none, some es =>
    if m.entries.isEmpty then .ok (.stream es (m.length.getD 0))
    else fail .streamWithMembers
  | none, none => .ok (.dictionary m.entries)

def ofString (s : String) : PdfValue :=
  match s.toList with
  | '/' :: name => .name (String.ofList name)
  | _ => .string s

def checkBreak {α : Type} (broken : Option Json.Break) (a : α) : Except DecodeError α :=
  match broken with
  | some (.atKey f) => faultAt [.unknown] f
  | some (.afterKey f) => faultAt [] f
  | none => .ok a

mutual

def value : Json.Draft → Except DecodeError PdfValue
  | .null => .ok .null
  | .boolean b => .ok (.boolean b)
  | .integer n => if n < 0x8000000000000000 then .ok (.integer n) else fail (.outOfRange n)
  | .number x => .ok (.number x)
  | .string s => .ok (ofString s)
  | .array ds broken => do
    let items ← values 0 ds
    match broken with
    | some f => faultAt [] f
    | none => .ok (.array items)
  | .object ms broken => do
    let m ← members {} ms
    (← checkBreak broken m).value
  | .fault f => faultAt [] f

def values (index : Nat) : List Json.Draft → Except DecodeError (List PdfValue)
  | [] => .ok []
  | d :: ds => do
    let v ← within (.item index) (value d)
    let vs ← values (index + 1) ds
    return v :: vs

/-- Decodes members in their order; of members with one key the last one counts. -/
def members (m : Members) : List (String × Json.Draft) → Except DecodeError Members
  | [] => .ok m
  | (key, d) :: rest =>
    if key = "$ref" then do
      let r ← within (.member key) (text d)
      members { m with reference := some r } rest
    else if key = "$length" then do
      let n ← within (.member key) (length d)
      members { m with length := some n } rest
    else do
      let v ← within (.member key) (value d)
      if key = "$stream" then match v with
        | .dictionary es => members { m with stream := some es } rest
        | _ => fail .streamNotDictionary
      else members { m with entries := Pairs.put m.entries key v } rest

end

structure RawDocument where
  trailer : PdfValue
  objects : List (String × PdfValue)

def objectMembers : List (String × Json.Draft) → Except DecodeError (List (String × PdfValue))
  | [] => .ok []
  | (key, d) :: rest => do
    let v ← within (.member key) (value d)
    return (key, v) :: (← objectMembers rest)

def objectTable : Json.Draft → Except DecodeError (List (String × PdfValue))
  | .object ms broken => do
    let table ← objectMembers ms
    checkBreak broken (Pairs.ofList table)
  | d => wrongType "a map" d

def rawDocumentName : String := "struct RawDocument"

structure Fields where
  trailer : Option PdfValue := none
  objects : Option (List (String × PdfValue)) := none

def Fields.finish (f : Fields) : Except DecodeError RawDocument :=
  match f.trailer with
  | some trailer => .ok ⟨trailer, f.objects.getD []⟩
  | none => fail (.missingField "trailer")

def Fields.has (f : Fields) (key : String) : Bool :=
  (key = "trailer" && f.trailer.isSome) || (key = "objects" && f.objects.isSome)

def Fields.set (f : Fields) (key : String) (d : Json.Draft) : Except DecodeError Fields :=
  if key = "trailer" then do
    return { f with trailer := some (← within (.member key) (value d)) }
  else if key = "objects" then do
    return { f with objects := some (← within (.member key) (objectTable d)) }
  else .ok f

def field (f : Fields) (key : String) (s : List Json.Lexeme) :
    Except DecodeError (Fields × Json.Left s) :=
  if key = "trailer" ∨ key = "objects" then do
    let (d, rest) := Json.Draft.read (Json.maxDepth - 1) s
    return (← f.set key d, rest)
  else match Json.skipValue [] s with
    | .ok rest => .ok (f, rest)
    | .error fault => faultAt [.member key] fault

/-- Reads the fields of a document up to the end of the object; `atEnd` is the fault if the text
ends before the next key. -/
def fields (f : Fields) (atEnd : Json.Fault) (s : List Json.Lexeme) :
    Except DecodeError RawDocument :=
  match s with
  | [] => faultAt [.unknown] atEnd
  | .closeObject :: _ => f.finish
  | .string (.error fault) _ :: _ => faultAt [.unknown] fault
  | .string (.ok key) _ :: s =>
    if f.has key then fail (.duplicateField key)
    else match s with
      | [] => faultAt [] .endInObject
      | .colon :: s => match field f key s with
        | .error e => .error e
        | .ok (f, ⟨rest, h⟩) => match rest, h with
          | .closeObject :: _, _ => f.finish
          | .comma :: .closeObject :: _, _ => faultAt [.unknown] .trailingComma
          | .comma :: rest, h =>
            have : rest.length < s.length := h
            fields f .endInValue rest
          | [], _ => faultAt [.unknown] .endInObject
          | _, _ => faultAt [.unknown] .expectedMember
      | _ => faultAt [] .expectedColon
  | _ => faultAt [.unknown] .keyNotString
termination_by s.length

def positional (s : List Json.Lexeme) : Except DecodeError RawDocument :=
  match s with
  | [] => faultAt [] .endInList
  | .closeArray :: _ => fail (.invalidLength 0 (rawDocumentName ++ " with 2 elements"))
  | s => do
    let (d, ⟨rest, _⟩) := Json.Draft.read (Json.maxDepth - 1) s
    let trailer ← within (.item 0) (value d)
    match rest with
    | [] => faultAt [] .endInList
    | .closeArray :: _ => return ⟨trailer, []⟩
    | .comma :: .closeArray :: _ => faultAt [] .trailingComma
    | [.comma] => faultAt [] .endInValue
    | .comma :: rest =>
      let (d, ⟨rest, _⟩) := Json.Draft.read (Json.maxDepth - 1) rest
      let objects ← within (.item 1) (objectTable d)
      match rest with
      | [] => faultAt [] .endInList
      | .closeArray :: _ => return ⟨trailer, objects⟩
      | .comma :: .closeArray :: _ => faultAt [] .trailingComma
      | _ => faultAt [] .trailingCharacters
    | _ => faultAt [] .expectedItem

/-- Reads a document from the start of a text; what follows it does not count. -/
def rawOfLexemes (s : List Json.Lexeme) : Except DecodeError RawDocument :=
  match s with
  | .openObject :: s => fields {} .endInObject s
  | .openArray :: s => positional s
  | s => wrongType rawDocumentName (Json.Draft.read Json.maxDepth s).1

def setFields (f : Fields) : List (String × Json) → Except DecodeError Fields
  | [] => .ok f
  | (key, v) :: rest => do setFields (← f.set key (.ofJson v)) rest

def rawOfJson (v : Json) : Except DecodeError RawDocument :=
  match v with
  | .object ms => do (← setFields {} ms).finish
  | .array [] => fail (.invalidLength 0 (rawDocumentName ++ " with 2 elements"))
  | .array (trailer :: rest) => do
    let trailer ← within (.item 0) (value (.ofJson trailer))
    match rest with
    | [] => return ⟨trailer, []⟩
    | objects :: more =>
      let objects ← within (.item 1) (objectTable (.ofJson objects))
      if more.isEmpty then return ⟨trailer, objects⟩
      else fail (.invalidLength (more.length + 2) "fewer elements in array")
  | v => wrongType rawDocumentName (.ofJson v)

mutual

def json : Json.Draft → Except DecodeError Json
  | .null => .ok .null
  | .boolean b => .ok (.boolean b)
  | .integer n => .ok (.integer n)
  | .number x => .ok (.number x)
  | .string s => .ok (.string s)
  | .array ds broken => do
    let items ← jsonItems 0 ds
    match broken with
    | some f => faultAt [] f
    | none => .ok (.array items)
  | .object ms broken => do
    let ms ← jsonMembers [] ms
    checkBreak broken (.object ms)
  | .fault f => faultAt [] f

def jsonItems (index : Nat) : List Json.Draft → Except DecodeError (List Json)
  | [] => .ok []
  | d :: ds => do
    let v ← within (.item index) (json d)
    let vs ← jsonItems (index + 1) ds
    return v :: vs

def jsonMembers (done : List (String × Json)) :
    List (String × Json.Draft) → Except DecodeError (List (String × Json))
  | [] => .ok done
  | (key, d) :: rest => do
    let v ← within (.member key) (json d)
    jsonMembers (Pairs.put done key v) rest

end

def jsonOfBytes (bytes : List UInt8) : Except DecodeError Json :=
  json (Json.Draft.read Json.maxDepth (Json.Lexeme.all bytes)).1

/-- Reads a JSON value that is all of a text. -/
def jsonOfText (text : String) : Except DecodeError Json := do
  let (d, rest) := Json.Draft.read Json.maxDepth (Json.Lexeme.all text.toUTF8.toList)
  let v ← json d
  if rest.lexemes.isEmpty then return v else faultAt [] .trailingCharacters

end Decoding

end PdfSchema
