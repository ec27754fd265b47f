import PdfSchema.KeyedList
import PdfSchema.Policy
import PdfSchema.Text.Blank
import PdfSchema.Text.Utf8

namespace PdfSchema

namespace Table

/-- A line of a table before its cells are named. `line` is one more than the number of line feeds
before the place where the search for the record began, and `offset` is that place. -/
structure RawRecord (α : Type) where
  line : Nat
  offset : Nat
  fields : List (List α)

section

variable {α : Type} (code : α → Nat)

def isLineEnd (a : α) : Bool := code a = 10 || code a = 13

def fields : List α → List (List α)
  | [] => [[]]
  | a :: s =>
    if code a = 9 then [] :: fields s
    else match fields s with
      | [] => [[a]]
      | field :: rest => (a :: field) :: rest

def lineFeeds (s : List α) : Nat := s.countP fun a => code a = 10

/-- The records of `s`, which begins on the line `line` at `offset`. A record ends with the first
element of what ends its line. -/
def recordsFrom (line offset : Nat) (s : List α) : List (RawRecord α) :=
  let blank := s.takeWhile (isLineEnd code)
  match _h : s.dropWhile (isLineEnd code) with
  | [] => []
  | a :: rest =>
    let text := (a :: rest).takeWhile (!isLineEnd code ·)
    let after := (a :: rest).dropWhile (!isLineEnd code ·)
    let used := blank ++ text ++ after.take 1
    ⟨line, offset, fields code text⟩ ::
      recordsFrom (line + lineFeeds code used) (offset + used.length) (after.drop 1)
termination_by s.length
decreasing_by
  have h1 : (s.dropWhile (isLineEnd code)).length ≤ s.length :=
    (List.dropWhile_suffix _).length_le
  have h2 : ((a :: rest).dropWhile (!isLineEnd code ·)).length ≤ (a :: rest).length :=
    (List.dropWhile_suffix _).length_le
  rw [_h] at h1
  simp only [List.length_drop, List.length_cons] at h1 h2 ⊢
  omega

end

structure Record where
  line : Nat
  cells : List (String × String)
  cellCount : Nat
  deriving DecidableEq, Repr

namespace Record

def cell (r : Record) (c : Column) : String := (Pairs.get? r.cells c.label).getD ""

/-- A line with the cells `fields` under `header`; of two columns of one name the last one with a
cell counts. -/
def ofFields (header : List String) (line : Nat) (fields : List String) : Record :=
  { line, cells := Pairs.ofList (header.zip fields), cellCount := fields.length }

end Record

structure EncodingError where
  record : Nat
  line : Nat
  field : Nat
  offset : Nat
  index : Nat
  deriving DecidableEq, Repr

def EncodingError.message (e : EncodingError) : String :=
  s!"CSV parse error: record {e.record} (line {e.line}, field: {e.field}, byte: {e.offset}): " ++
    s!"invalid utf-8: invalid UTF-8 in field {e.field} near byte index {e.index}"

def decodeFields (record : Nat) (raw : RawRecord UInt8) (field : Nat) :
    List (List UInt8) → Except EncodingError (List String)
  | [] => .ok []
  | f :: fs => match Text.decodeUtf8 f with
    | .error index => .error ⟨record, raw.line, field, raw.offset, index⟩
    | .ok s => do
      let rest ← decodeFields record raw (field + 1) fs
      return s :: rest

end Table

structure Table where
  name : String
  path : String
  records : List Table.Record
  deriving DecidableEq, Repr

namespace Table

def recordsOf (lines : List (Nat × List String)) : List Record :=
  match lines with
  | [] => []
  | (_, header) :: rest => rest.map fun (line, fields) => Record.ofFields header line fields

/-- Reads a text. A byte order mark at its start is dropped. -/
def ofText (name path text : String) : Table :=
  let chars := text.toList
  let chars := if chars.head? = some '\uFEFF' then chars.drop 1 else chars
  let lines := (recordsFrom Char.toNat 1 0 chars).map fun r =>
    (r.line, r.fields.map String.ofList)
  { name, path, records := recordsOf lines }

def ofBytes (name path : String) (bytes : List UInt8) : Except EncodingError Table := do
  let mark : List UInt8 := [0xEF, 0xBB, 0xBF]
  let marked := mark.isPrefixOf bytes
  let raw := recordsFrom UInt8.toNat 1 0 (if marked then bytes.drop 3 else bytes)
  let shift := if marked then 3 else 0
  let raw := match raw with
    | [] => []
    | header :: rest =>
      header :: rest.map fun (r : RawRecord UInt8) => { r with offset := r.offset + shift }
  let lines ← raw.zipIdx.mapM fun (r, n) => do
    let fields ← decodeFields n r 0 r.fields
    return (r.line, fields)
  return { name, path, records := recordsOf lines }

end Table

end PdfSchema
