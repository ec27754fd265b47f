import PdfSchema.Match.Report

namespace PdfSchema.Match

/-- A value that the walk is to visit, with what is known about it from above. -/
structure Frame where
  node : PdfValue
  path : String
  key : String
  object : Option String
  row : Option Row
  cls : Class
  /-- The schema object of the values inside, where it is known without a row. -/
  forced : Option String
  depth : Nat
  /-- The indirect containers that were entered on the way to this value. -/
  ancestors : List ObjectId

structure Context where
  schema : Schema
  document : Document

def Frame.finding (f : Frame) (issue : Issue) : Finding := ⟨f.path, f.object, issue⟩

structure Visit where
  annotation : Annotation
  findings : List Finding
  visited : List ObjectId
  children : List Frame

namespace Context

variable (c : Context)

/-- The value that a frame stands for; a reference to nothing stands for null. -/
def target (f : Frame) : Resolved :=
  match c.document.resolve f.node with
  | .ok r => r
  | .error _ => ⟨none, .null⟩

def referenceFindings (f : Frame) : List Finding :=
  match c.document.resolve f.node with
  | .ok _ => []
  | .error id => [f.finding (.danglingReference id)]

def annotate (f : Frame) (r : Resolved) : Annotation :=
  let kind := r.value.kind
  let alternative := f.row.bind (alternative? · kind)
  let link := match f.forced, f.row, alternative with
    | some name, _, _ => some name
    | none, some row, some (i, _) => chooseLink c.schema row i r.value
    | none, _, _ => none
  { path := f.path
    key := f.key
    object := f.object
    cls := if f.row.isSome && alternative.isNone then .unmatched else f.cls
    kind
    id := r.id
    type := alternative.map Prod.snd
    link }

def kindFindings (f : Frame) (r : Resolved) : List Finding :=
  match f.row with
  | none => []
  | some row =>
    if (alternative? row r.value.kind).isSome then []
    else [f.finding (.unexpectedKind r.value.kind (row.types.filterMap TypeEntry.name?))]

def revisitFinding (f : Frame) (id : ObjectId) : Finding :=
  f.finding (if f.ancestors.contains id then .cycle id else .sharedObject id)

def numbersFindings (f : Frame) (type : ValueType) (length : Nat) (v : PdfValue) :
    List Finding :=
  let items := v.items?.getD []
  let numeric := items.all fun item => match c.document.resolve item with
    | .ok r => r.value.kind.isNumeric
    | .error _ => false
  if items.length = length && numeric then []
  else [f.finding (.malformedArray type length items.length)]

def lookups (object : Option SchemaObject) (v : PdfValue) :
    List ((String × PdfValue) × Option Row × Class) :=
  match v with
  | .array items => items.zipIdx.map fun (item, i) =>
    ((toString i, item), lookupIndex object i)
  | v => v.children.map fun e => (e, lookupKey object e.1)

def hasKey (v : PdfValue) (key : String) : Bool :=
  match v with
  | .array items => match Text.natural? UInt64.size key.toList with
    | some i => i < items.length
    | none => false
  | v => (v.entry? key).isSome

def missingKeys (object : SchemaObject) (v : PdfValue) : List String :=
  (object.pairs.filter fun (key, row) =>
    !key.toList.contains '*' && row.isRequired && !row.inheritable.isTrue && !hasKey v key).map
      Prod.fst

def childPath (path key : String) : String := path ++ "/" ++ key

def keyFindings (f : Frame) (name : String) (object : SchemaObject) (v : PdfValue) :
    List Finding :=
  ((lookups (some object) v).filter fun (_, _, cls) => cls = .unmatched).map (fun ((key, _), _) =>
    ⟨childPath f.path key, some name, .unmatchedKey key name⟩) ++
  (missingKeys object v).map fun key => ⟨f.path, some name, .missingRequired key name⟩

def childFrames (f : Frame) (name : Option String) (object : Option SchemaObject)
    (ancestors : List ObjectId) (v : PdfValue) : List Frame :=
  (lookups object v).map fun ((key, node), row, cls) =>
    { node
      path := childPath f.path key
      key
      object := name
      row
      cls
      forced := none
      depth := f.depth + 1
      ancestors }

def layout (link : Option String) : Option (String × SchemaObject) := do
  let name ← link
  let object ← c.schema.get? name
  return (name, object)

def enter (f : Frame) (a : Annotation) (v : PdfValue) : List Finding × List Frame :=
  match a.type with
  | some .matrix => (c.numbersFindings f .matrix 6 v, [])
  | some .rectangle => (c.numbersFindings f .rectangle 4 v, [])
  | some .nameTree | some .numberTree => ([], [])
  | _ =>
    let layout := c.layout a.link
    let findings := match layout with
      | some (name, object) => keyFindings f name object v
      | none => []
    let frames := childFrames f (layout.map Prod.fst) (layout.map Prod.snd)
      (f.ancestors ++ a.id.toList) v
    (findings, frames)

/-- Visits a value, where `visited` are the indirect containers that were visited before. -/
def visit (visited : List ObjectId) (f : Frame) : Visit :=
  let r := c.target f
  let a := c.annotate f r
  let findings := c.referenceFindings f ++ kindFindings f r
  if !r.value.kind.isContainer then ⟨a, findings, visited, []⟩
  else match r.id with
    | some id =>
      if visited.contains id then ⟨a, findings ++ [revisitFinding f id], visited, []⟩
      else
        let (more, children) := c.enter f a r.value
        ⟨a, findings ++ more, id :: visited, children⟩
    | none =>
      let (more, children) := c.enter f a r.value
      ⟨a, findings ++ more, visited, children⟩

end Context

end PdfSchema.Match
