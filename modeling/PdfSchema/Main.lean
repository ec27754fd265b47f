import PdfSchema.CommandLine.Run
import PdfSchema.Filter.Language
import Std.Time.Zoned

namespace PdfSchema.CommandLine

def absolutePath (l : Location) : String := "/" ++ "/".intercalate l

def locationOf (here : Location) (path : String) : Location :=
  (Path.names path).foldl
    (fun l name => if name = "." then l else if name = ".." then l.dropLast else l ++ [name])
    (if Path.isAbsolute path then [] else here)

abbrev Region := Location × Option Nat

/-- The region that a pattern can reach: what lies below its names without wildcards. -/
def regionOf (here : Location) (pattern : String) : Region :=
  let names := Path.names pattern
  let literal := names.takeWhile (!isPattern ·)
  let path := (if Path.isAbsolute pattern then "/" else "") ++ "/".intercalate literal
  let depth := if names.contains "**" then none else some (max 1 (names.length - literal.length))
  (locationOf here path, depth)

def Arguments.regions (a : Arguments) (here : Location) : List Region :=
  (regionOf here (SchemaFiles.pattern a.schemaDirectory) :: a.documents.map (regionOf here)) ++
    a.reportDirectory.toList.map (fun path => (locationOf here path, some 1)) ++
    a.exportPath.toList.map fun path => (locationOf here path, some 0)

partial def takeIn (t : FileTree) (l : Location) (depth : Option Nat) : IO FileTree := do
  let path := (← IO.currentDir) / absolutePath l
  if ← path.isDir then
    let t := if l.isEmpty then t else t.putBelow l .directory
    if depth = some 0 then return t
    (← path.readDir).foldlM (fun t e => takeIn t (l ++ [e.fileName]) (depth.map (· - 1))) t
  else if ← path.pathExists then
    return t.putBelow l (.file (← IO.FS.readBinFile path).toList)
  else return t

def takeInWay (t : FileTree) (l : Location) : IO FileTree :=
  (List.range l.length).foldlM (fun t n => takeIn t (l.take n) (some 0)) t

def writeBack (before after : FileTree) : IO Unit :=
  for l in after.below [] do
    if before.get? l != after.get? l then
      match after.get? l with
      | some .directory => IO.FS.createDirAll (absolutePath l)
      | some (.file bytes) => IO.FS.writeBinFile (absolutePath l) ⟨bytes.toArray⟩
      | none => pure ()

def localNow : IO Moment := do
  let now ← Std.Time.Timestamp.now
  let offset : Int ← try pure (← Std.Time.DateTime.now).timezone.offset.second.val
    catch _ => pure 0
  return Moment.ofSeconds offset now.toSecondsSinceUnixEpoch.val

/-- Runs the program on the file system. All reports get the moment of its start. -/
def runInPlace (a : Arguments) : IO UInt32 := do
  let here := Path.names (← IO.currentDir).toString
  let start : FileTree := FileTree.putBelow ⟨.empty, here⟩ here .directory
  let t ← (a.regions here).foldlM
    (fun t (l, depth) => do takeIn (← takeInWay t l) l depth) start
  let now ← localNow
  let o := run ⟨Filter.language, fun _ => now⟩ a t
  (← IO.getStdout).putStr o.output
  (← IO.getStderr).putStr o.errors
  writeBack t o.tree
  match o.failure with
  | none => return 0
  | some f =>
    (← IO.getStderr).putStrLn s!"Error: {f.message}"
    return 1

end PdfSchema.CommandLine

open PdfSchema.CommandLine in
def main (args : List String) : IO UInt32 := do
  match Arguments.ofList args with
  | .ok a => runInPlace a
  | .error e =>
    match e with
    | .help | .version =>
      IO.println e.message
      return 0
    | e =>
      (← IO.getStderr).putStrLn s!"error: {e.message}"
      return 2
