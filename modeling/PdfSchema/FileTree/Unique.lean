import PdfSchema.FileTree.Basic

namespace PdfSchema.FileTree

def numberedName (stem : String) (n : Nat) : String :=
  if n = 0 then stem ++ ".txt" else stem ++ "-" ++ toString n ++ ".txt"

/-- Writes a file under the first numbered name from `n` on that is not taken, of at most `steps`
names, and tells its path. -/
def createFrom (t : FileTree) (directory stem : String) (bytes : List UInt8) (n : Nat) :
    Nat → FileTree × Except FileError String
  | 0 => (t, .error .alreadyExists)
  | steps + 1 =>
    let path := Path.join directory (numberedName stem n)
    match t.create path bytes with
    | .ok t' => (t', .ok path)
    | .error .alreadyExists => createFrom t directory stem bytes (n + 1) steps
    | .error e => (t, .error e)

/-- Writes a file under the first numbered name that is not taken. There are more names to try than
there are nodes that could take them. -/
def createUnique (t : FileTree) (directory stem : String) (bytes : List UInt8) :
    FileTree × Except FileError String :=
  match t.makeDirectories directory with
  | (t, .error e) => (t, .error e)
  | (t, .ok _) => createFrom t directory stem bytes 0 (t.nodes.size + 1)

end PdfSchema.FileTree
