import PdfSchema.Text.Blank

namespace PdfSchema.Path

def isSeparator (c : Char) : Bool := c = '/'

def names (path : String) : List String :=
  ((Text.splitBy isSeparator path.toList).filter (!·.isEmpty)).map String.ofList

def isAbsolute (path : String) : Bool := path.toList.head? = some '/'

def wantsDirectory (path : String) : Bool := path.toList.getLast? = some '/'

def join (path name : String) : String :=
  if isAbsolute name || path = "" then name
  else if wantsDirectory path then path ++ name
  else path ++ "/" ++ name

def isHere (path : String) : Bool :=
  !isAbsolute path && !(names path).isEmpty && (names path).all (· = ".")

/-- The name of a file without what follows its last point, unless nothing else would be left. -/
def stemOfName (name : String) : String :=
  let cs := name.toList.reverse
  match cs.dropWhile (· ≠ '.') with
  | _ :: front => if front.isEmpty then name else String.ofList front.reverse
  | [] => name

/-- The stem of the last name of a path, if that is the name of a file. -/
def stem? (path : String) : Option String :=
  match ((names path).filter (· ≠ ".")).getLast? with
  | some ".." => none
  | name => name.map stemOfName

end PdfSchema.Path
