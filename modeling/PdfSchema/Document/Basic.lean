import PdfSchema.Document.Filter

namespace PdfSchema

structure Document where
  trailer : PdfValue
  objects : KeyedList ObjectId PdfValue

inductive DocumentError where
  | json (error : DecodeError)
  | filter (error : FilterError)
  | badObjectId (text : String)
  | badTrailer (kind : PdfValue.Kind)
  deriving DecidableEq, Repr

def DocumentError.message (path : String) : DocumentError → String
  | json e => s!"malformed document `{path}`: {e.message}"
  | filter e => s!"jq pre-filter failed on `{path}`: {e.message}"
  | badObjectId text => ObjectId.badMessage text
  | badTrailer kind => s!"trailer must be a dictionary or a stream, found {kind.label}"

/-- A value that no reference stands before any more, and the last reference to it. -/
structure Resolved where
  id : Option ObjectId
  value : PdfValue

namespace Document

/-- Enters objects into a table, a later one in place of an earlier one of the same id. -/
def addObjects (table : KeyedList ObjectId PdfValue) :
    List (String × PdfValue) → Except DocumentError (KeyedList ObjectId PdfValue)
  | [] => .ok table
  | (key, v) :: rest => match ObjectId.parse? key with
    | some id => addObjects (table.put id v) rest
    | none => .error (.badObjectId key)

def ofRaw (raw : Decoding.RawDocument) : Except DocumentError Document :=
  match raw.trailer.kind with
  | .dictionary | .stream => do
    let objects ← addObjects .empty raw.objects
    return ⟨raw.trailer, objects⟩
  | kind => .error (.badTrailer kind)

def ofFiltered (language : FilterLanguage) (filter : String) (v : Json) :
    Except DocumentError Document := do
  let filtered ← (language.output filter v).mapError .filter
  ofRaw (← (Decoding.rawOfJson filtered).mapError .json)

def ofBytes (language : FilterLanguage) (filter : Option String) (bytes : List UInt8) :
    Except DocumentError Document := do
  match filter with
  | none => ofRaw (← (Decoding.rawOfLexemes (Json.Lexeme.all bytes)).mapError .json)
  | some filter => ofFiltered language filter (← (Decoding.jsonOfBytes bytes).mapError .json)

/-- Follows at most `steps` references from a value, the last of which was `last`. The error is the
id of the reference that cannot be followed. -/
def follow (d : Document) (steps : Nat) (last : Option ObjectId) (v : PdfValue) :
    Except ObjectId Resolved :=
  match v with
  | .reference id => match steps with
    | 0 => .error id
    | steps + 1 => match d.objects.get? id with
      | some target => d.follow steps (some id) target
      | none => .error id
  | v => .ok ⟨last, v⟩

/-- Follows references to the end. A chain that is longer than the table never ends. -/
def resolve (d : Document) (v : PdfValue) : Except ObjectId Resolved :=
  d.follow (d.objects.size + 1) none v

theorem follow_of_direct (d : Document) (steps : Nat) (last : Option ObjectId) {v : PdfValue}
    (h : v.isReference = false) : d.follow steps last v = .ok ⟨last, v⟩ := by
  cases v with
  | reference id => cases h
  | _ => cases steps <;> rfl

theorem follow_eq_ok {d : Document} {steps : Nat} {last : Option ObjectId} {v : PdfValue}
    {r : Resolved} (h : d.follow steps last v = .ok r) :
    (v.isReference = false ∧ r = ⟨last, v⟩) ∨
      (v.isReference = true ∧ ∃ id, r.id = some id ∧ d.objects.get? id = some r.value) := by
  induction steps generalizing last v with
  | zero =>
    unfold follow at h
    split at h
    · cases h
    · rename_i hv
      cases h
      exact .inl ⟨by cases v <;> first | rfl | exact absurd rfl (hv _), rfl⟩
  | succ n ih =>
    unfold follow at h
    split at h
    · rename_i id
      simp only at h
      split at h
      · rename_i target ht
        rcases ih h with ⟨_, rfl⟩ | ⟨_, hr⟩
        · exact .inr ⟨rfl, id, rfl, ht⟩
        · exact .inr ⟨rfl, hr⟩
      · cases h
    · rename_i hv
      cases h
      exact .inl ⟨by cases v <;> first | rfl | exact absurd rfl (hv _), rfl⟩

theorem resolve_eq_ok {d : Document} {v : PdfValue} {r : Resolved} (h : d.resolve v = .ok r) :
    (v.isReference = false ∧ r = ⟨none, v⟩) ∨
      (v.isReference = true ∧ ∃ id, r.id = some id ∧ d.objects.get? id = some r.value) :=
  follow_eq_ok h

theorem resolve_direct (d : Document) {v : PdfValue} (h : v.isReference = false) :
    d.resolve v = .ok ⟨none, v⟩ := d.follow_of_direct _ none h

def isCrossReferenceStream (d : Document) : Bool :=
  d.trailer.kind = .stream ||
    (match d.trailer.entry? "Type" with
      | some (.name text) => text = "XRef"
      | _ => false)

def rootObject (d : Document) (wanted : Option String) : String :=
  wanted.getD (if d.isCrossReferenceStream then "XRefStream" else "FileTrailer")

end Document

end PdfSchema
