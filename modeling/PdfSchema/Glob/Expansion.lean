import PdfSchema.FileTree.Basic
import PdfSchema.Glob.Basic

namespace PdfSchema

namespace Glob

structure Reached where
  path : String
  location : Location
  deriving DecidableEq, Repr

abbrev Component := List Part

def isRecursive (c : Component) : Bool := c = [.anyDirectories]

/-- Components where no two recursive ones follow each other; many mean the same as one. -/
def collapse : List Component → List Component
  | c :: d :: cs =>
    let rest := collapse (d :: cs)
    if isRecursive c && isRecursive d then rest else c :: rest
  | cs => cs

def components (pattern : String) : Except Error (List Component) := do
  let pieces := Text.splitBy Path.isSeparator pattern.toList
  let pieces := if pieces.getLast? = some [] && 1 < pieces.length then pieces.dropLast else pieces
  return collapse (← pieces.mapM fun piece => parts (String.ofList piece))

section

variable (t : FileTree) (wantsDirectory : Bool)

def isDirectory (r : Reached) : Bool := t.isDirectory r.location

def final (r : Reached) : List Reached :=
  if !wantsDirectory || isDirectory t r then [r] else []

def pathInside (r : Reached) (name : String) : String :=
  if Path.isHere r.path then name else Path.join r.path name

def named (r : Reached) (name : String) : Option Reached :=
  let path := pathInside r name
  if name = "." then if isDirectory t r then some ⟨path, r.location⟩ else none
  else if name = ".." then
    if isDirectory t r then some ⟨path, r.location.dropLast⟩ else none
  else if name = "" then
    if isDirectory t r && path ≠ "" then some ⟨path, r.location⟩ else none
  else match t.walk r.location [name] with
    | .ok l => some ⟨path, l⟩
    | .error _ => none

def reachedBelow (r : Reached) (ls : List Location) : List Reached :=
  ls.map fun l => ⟨pathInside r ("/".intercalate (l.drop r.location.length)), l⟩

/-- The directory itself and the one above it, where a pattern fits their names; only one that
starts with a point does. -/
def dotNames (r : Reached) (c : Component) : List Reached :=
  let dots : List (String × Location) := [("..", r.location.dropLast), (".", r.location)]
  (dots.filter fun d => c.head? = some (.char '.') && fits c d.1.toList).map fun d =>
    ⟨Path.join r.path d.1, d.2⟩

def lastName (r : Reached) : List Char := (r.location.getLast?.getD "").toList

def expand (cs : List Component) (r : Reached) : List Reached :=
  match cs with
  | [] => final t wantsDirectory r
  | c :: cs =>
    match literal? c with
    | some name => match named t r name with
      | some next => expand cs next
      | none => []
    | none =>
      if !isDirectory t r then []
      else if isRecursive c then
        (reachedBelow r (t.below r.location)).flatMap fun next =>
          match cs with
          | [] => if isDirectory t next then [next] else []
          | d :: ds => if fits d (lastName next) then expand ds next else []
      else
        (dotNames r c).flatMap (expand cs) ++
          (reachedBelow r (t.inside r.location)).flatMap fun next =>
            if fits c (lastName next) then expand cs next else []

end

end Glob

/-- The paths that fit a pattern, in the order of a walk down the tree. The whole pattern has to be
well-formed, and so has each component. -/
def FileTree.glob (t : FileTree) (pattern : String) : Except Glob.Error (List String) := do
  let _ ← Glob.parts pattern
  let absolute := Path.isAbsolute pattern
  let start : Glob.Reached := if absolute then ⟨"/", []⟩ else ⟨".", t.workingDirectory⟩
  let rest := if absolute then String.ofList (pattern.toList.drop 1) else pattern
  let found := Glob.expand t (Path.wantsDirectory pattern) (← Glob.components rest) start
  return found.map Glob.Reached.path

end PdfSchema
