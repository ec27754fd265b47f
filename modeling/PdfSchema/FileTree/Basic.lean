import PdfSchema.FileTree.Path
import PdfSchema.KeyedList
import PdfSchema.Text.Blank

namespace PdfSchema

abbrev Location := List String

inductive FileNode where
  | directory
  | file (bytes : List UInt8)
  deriving DecidableEq, Repr

inductive FileError where
  | notFound
  | alreadyExists
  | notADirectory
  | isADirectory
  | nameTooLong
  | zeroByte
  deriving DecidableEq, Repr

def FileError.message : FileError → String
  | notFound => "No such file or directory (os error 2)"
  | alreadyExists => "File exists (os error 17)"
  | notADirectory => "Not a directory (os error 20)"
  | isADirectory => "Is a directory (os error 21)"
  | nameTooLong => "File name too long (os error 36)"
  | zeroByte => "file name contained an unexpected NUL byte"

/-- What stands below the root, and the directory that paths without a leading slash start from. -/
structure FileTree where
  nodes : KeyedList Location FileNode
  workingDirectory : Location

namespace FileTree

/-- The node at a location. The root is always there. -/
def get? (t : FileTree) (l : Location) : Option FileNode :=
  if l.isEmpty then some .directory else t.nodes.get? l

def put (t : FileTree) (l : Location) (n : FileNode) : FileTree :=
  { t with nodes := t.nodes.put l n }

def isDirectory (t : FileTree) (l : Location) : Bool := t.get? l = some .directory

def maxNameLength : Nat := 255

def isTooLong (name : String) : Bool := maxNameLength < Text.byteLength name.toList

def start (t : FileTree) (path : String) : Location :=
  if Path.isAbsolute path then [] else t.workingDirectory

def walk (t : FileTree) (l : Location) : List String → Except FileError Location
  | [] => .ok l
  | name :: names => match t.get? l with
    | none => .error .notFound
    | some (.file _) => .error .notADirectory
    | some .directory =>
      if name = "." then walk t l names
      else if name = ".." then walk t l.dropLast names
      else if isTooLong name then .error .nameTooLong
      else if (t.get? (l ++ [name])).isSome then walk t (l ++ [name]) names
      else .error .notFound

def hasZeroByte (path : String) : Bool := path.toList.contains '\x00'

def find (t : FileTree) (path : String) : Except FileError (Location × FileNode) := do
  if hasZeroByte path then throw .zeroByte
  if path = "" then throw .notFound
  let last := if Path.wantsDirectory path then ["."] else []
  let l ← t.walk (t.start path) (Path.names path ++ last)
  match t.get? l with
  | some n => return (l, n)
  | none => throw .notFound

def isDirectoryPath (t : FileTree) (path : String) : Bool :=
  match t.find path with
  | .ok (_, .directory) => true
  | _ => false

def read (t : FileTree) (path : String) : Except FileError (List UInt8) :=
  match t.find path with
  | .ok (_, .file bytes) => .ok bytes
  | .ok (_, .directory) => .error .isADirectory
  | .error e => .error e

/-- The location of a file that may be yet to come: its directory is there. -/
def place (t : FileTree) (path : String) : Except FileError Location := do
  if hasZeroByte path then throw .zeroByte
  match (Path.names path).getLast? with
  | none => if path = "" then throw .notFound else throw .isADirectory
  | some name =>
    let l ← t.walk (t.start path) (Path.names path).dropLast
    if !t.isDirectory l then throw (if (t.get? l).isSome then .notADirectory else .notFound)
    if name = "." then return l
    if name = ".." then return l.dropLast
    if isTooLong name then throw .nameTooLong
    if Path.wantsDirectory path then throw .isADirectory
    return l ++ [name]

def write (t : FileTree) (path : String) (bytes : List UInt8) : Except FileError FileTree := do
  let l ← t.place path
  if t.isDirectory l then throw .isADirectory
  return t.put l (.file bytes)

def create (t : FileTree) (path : String) (bytes : List UInt8) : Except FileError FileTree := do
  let l ← t.place path
  if (t.get? l).isSome then throw .alreadyExists
  return t.put l (.file bytes)

/-- Makes the directories that are missing on a way down. Those that have been made stay, also when
the way ends. -/
def makeWay (t : FileTree) (l : Location) : List String → FileTree × Except FileError Unit
  | [] => (t, .ok ())
  | name :: names =>
    if name = "." then makeWay t l names
    else if name = ".." then makeWay t l.dropLast names
    else if isTooLong name then (t, .error .nameTooLong)
    else match t.get? (l ++ [name]) with
      | some .directory => makeWay t (l ++ [name]) names
      | some (.file _) => (t, .error (if names.isEmpty then .alreadyExists else .notADirectory))
      | none => makeWay (t.put (l ++ [name]) .directory) (l ++ [name]) names

def putBelow (t : FileTree) (l : Location) (n : FileNode) : FileTree :=
  (t.makeWay [] l.dropLast).1.put l n

/-- Makes the directory at a path, and those above it, where they are missing. A directory is not
made under the name `.` that it has in itself. -/
def makeDirectories (t : FileTree) (path : String) : FileTree × Except FileError Unit :=
  if hasZeroByte path then (t, .error .zeroByte)
  else if !t.isDirectory (t.start path) then (t, .error .notFound)
  else
    let names := Path.names path
    let plain := (names.reverse.dropWhile (· = ".")).reverse
    if plain.isEmpty || plain.length = names.length then t.makeWay (t.start path) names
    else match t.makeWay (t.start path) plain.dropLast with
      | (t, .error e) => (t, .error e)
      | (t, .ok _) => (t, (t.find path).map fun _ => ())

def before (a b : Location) : Bool := !decide (b < a)

def below (t : FileTree) (l : Location) : List Location :=
  (t.nodes.keys.filter fun k => l.length < k.length && l.isPrefixOf k).mergeSort before

def inside (t : FileTree) (l : Location) : List Location :=
  (t.below l).filter fun k => k.length = l.length + 1

end FileTree

end PdfSchema
