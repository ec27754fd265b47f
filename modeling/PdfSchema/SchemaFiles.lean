import PdfSchema.Glob.Expansion
import PdfSchema.Table

namespace PdfSchema

namespace SchemaFiles

inductive Fault where
  | file (error : FileError)
  | encoding (error : Table.EncodingError)
  deriving DecidableEq, Repr

def Fault.message : Fault → String
  | file e => e.message
  | encoding e => e.message

inductive Error where
  | badPattern (pattern : String) (error : Glob.Error)
  | unreadable (path : String) (fault : Fault)
  | noFiles (directory : String)
  deriving DecidableEq, Repr

def Error.message : Error → String
  | badPattern pattern e => s!"bad glob pattern `{pattern}`: {e.message}"
  | unreadable path fault => s!"cannot read `{path}`: {fault.message}"
  | noFiles directory => s!"no *.tsv files in `{directory}`"

/-- The pattern that the schema files in a directory fit. The path of the directory may itself hold
wildcards. -/
def pattern (directory : String) : String := Path.join directory "*.tsv"

def sortPaths (paths : List String) : List String :=
  let names (path : String) : List String := (Path.names path).filter (· ≠ ".")
  paths.mergeSort fun a b => FileTree.before (names a) (names b)

def readTable (t : FileTree) (path : String) : Except Error Table :=
  match t.read path with
  | .error e => .error (.unreadable path (.file e))
  | .ok bytes =>
    (Table.ofBytes ((Path.stem? path).getD "") path bytes).mapError fun e =>
      .unreadable path (.encoding e)

end SchemaFiles

open SchemaFiles in
def FileTree.readTables (t : FileTree) (directory : String) :
    Except SchemaFiles.Error (List Table) :=
  match t.glob (pattern directory) with
  | .error e => .error (.badPattern (pattern directory) e)
  | .ok [] => .error (.noFiles directory)
  | .ok paths => (sortPaths paths).mapM (readTable t)

end PdfSchema
