namespace PdfSchema

inductive Glob.Part where
  | char (c : Char)
  | anyChar
  | anyOf (ranges : List (Char × Char))
  | noneOf (ranges : List (Char × Char))
  | anySequence
  | anyDirectories
  deriving DecidableEq, Repr

namespace Glob

inductive Cause where
  | tooManyStars
  | partialRecursion
  | badClass
  deriving DecidableEq, Repr

structure Error where
  position : Nat
  cause : Cause
  deriving DecidableEq, Repr

def Cause.message : Cause → String
  | tooManyStars => "wildcards are either regular `*` or recursive `**`"
  | partialRecursion => "recursive wildcards must form a single path component"
  | badClass => "invalid range pattern"

def Error.message (e : Error) : String :=
  s!"Pattern syntax error near position {e.position}: {e.cause.message}"

def ranges : List Char → List (Char × Char)
  | a :: '-' :: b :: s => (a, b) :: ranges s
  | a :: s => (a, a) :: ranges s
  | [] => []

/-- The class whose opening bracket stands before `s`, and the number of characters that it takes
there. Its first character does not close it. -/
def class? (s : List Char) : Option (Part × Nat) :=
  let closed (s : List Char) : Option (List Char) :=
    match s with
    | c :: s =>
      let more := s.takeWhile (· ≠ ']')
      if more.length < s.length then some (c :: more) else none
    | [] => none
  match s with
  | '!' :: s => (closed s).map fun cs => (.noneOf (ranges cs), cs.length + 2)
  | s => (closed s).map fun cs => (.anyOf (ranges cs), cs.length + 1)

/-- The parts of a pattern from `position` on; `fresh` says whether a path component starts
there. -/
def partsFrom (position : Nat) (fresh : Bool) (s : List Char) : Except Error (List Part) :=
  match s with
  | [] => .ok []
  | '?' :: s => do return .anyChar :: (← partsFrom (position + 1) false s)
  | '*' :: '*' :: '*' :: _ => .error ⟨position + 2, .tooManyStars⟩
  | '*' :: '*' :: s =>
    if !fresh then .error ⟨position - 1, .partialRecursion⟩
    else match s with
      | [] => .ok [.anyDirectories]
      | '/' :: s => do return .anyDirectories :: (← partsFrom (position + 3) true s)
      | _ => .error ⟨position + 2, .partialRecursion⟩
  | '*' :: s => do return .anySequence :: (← partsFrom (position + 1) false s)
  | '[' :: s => match class? s with
    | some (part, n) => do return part :: (← partsFrom (position + 1 + n) false (s.drop n))
    | none => .error ⟨position, .badClass⟩
  | c :: s => do return .char c :: (← partsFrom (position + 1) (c = '/') s)
termination_by s.length
decreasing_by all_goals (simp only [List.length_cons, List.length_drop]; omega)

def parts (pattern : String) : Except Error (List Part) := partsFrom 0 true pattern.toList

def inRanges (c : Char) (rs : List (Char × Char)) : Bool := rs.any fun r => r.1 ≤ c && c ≤ r.2

def ends {α : Type} : List α → List (List α)
  | [] => [[]]
  | a :: s => (a :: s) :: ends s

def fits : List Part → List Char → Bool
  | [], s => s.isEmpty
  | .anySequence :: ps, s | .anyDirectories :: ps, s => (ends s).any (fits ps)
  | .char c :: ps, d :: s => c = d && fits ps s
  | .anyChar :: ps, _ :: s => fits ps s
  | .anyOf rs :: ps, c :: s => inRanges c rs && fits ps s
  | .noneOf rs :: ps, c :: s => !inRanges c rs && fits ps s
  | _, [] => false

def Part.char? : Part → Option Char
  | char c => some c
  | _ => none

def literal? (ps : List Part) : Option String := (ps.mapM Part.char?).map String.ofList

def escape (s : String) : String :=
  String.ofList (s.toList.flatMap fun c => if "?*[]".toList.contains c then ['[', c, ']'] else [c])

end Glob

end PdfSchema
