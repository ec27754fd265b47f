import PdfSchema.Filter.Basic
import PdfSchema.Filter.Lexeme

namespace PdfSchema.Filter

/-- What is left of `s` when something has been read off it. -/
abbrev Rest (s : List Lexeme) : Type := { r : List Lexeme // r.length < s.length }

abbrev Left (s : List Lexeme) : Type := { r : List Lexeme // r.length ≤ s.length }

theorem length_lt_cons_cons (a b : Lexeme) (s : List Lexeme) : s.length < (a :: b :: s).length := by
  simp only [List.length_cons]
  omega

def mark? (c : Char) (s : List Lexeme) : Option (Rest s) :=
  match s with
  | .mark d :: s => if d = c then some ⟨s, by simp⟩ else none
  | _ => none

def index? (s : List Lexeme) : Option (Int × Left s) :=
  match s with
  | .number (.integer n) :: s => some (n, ⟨s, by simp⟩)
  | .mark '-' :: .number (.integer n) :: s => some (-n, ⟨s, Nat.le_of_lt (length_lt_cons_cons ..)⟩)
  | _ => none

def closed? (step : Step) (s : List Lexeme) : Option (Step × Left s) := do
  let ⟨r, _⟩ ← mark? ']' s
  return (step, ⟨r, by omega⟩)

def sliceEnd? (start : Option Int) (s : List Lexeme) : Option (Step × Left s) :=
  match index? s with
  | some (stop, ⟨r, _⟩) => do
    let (step, ⟨r', _⟩) ← closed? (.slice start (some stop)) r
    return (step, ⟨r', by omega⟩)
  | none => closed? (.slice start none) s

def bracketed? (s : List Lexeme) : Option (Step × Left s) :=
  match s with
  | .text key :: s => do
    let (step, ⟨r, _⟩) ← closed? (.member key) s
    return (step, ⟨r, by simp only [List.length_cons]; omega⟩)
  | .mark ':' :: s => do
    let (stop, ⟨r, _⟩) ← index? s
    let (step, ⟨r', _⟩) ← closed? (.slice none (some stop)) r
    return (step, ⟨r', by simp only [List.length_cons]; omega⟩)
  | s => match index? s with
    | none => closed? .each s
    | some (i, ⟨r, _⟩) => match mark? ':' r with
      | some ⟨r', _⟩ => do
        let (step, ⟨r'', _⟩) ← sliceEnd? (some i) r'
        return (step, ⟨r'', by omega⟩)
      | none => do
        let (step, ⟨r', _⟩) ← closed? (.item i) r
        return (step, ⟨r', by omega⟩)

def steps? (f : Filter) (s : List Lexeme) : Option (Filter × Left s) :=
  match s with
  | .field key :: s => do
    let (g, ⟨r, _⟩) ← steps? (.access f (.member key)) s
    return (g, ⟨r, by simp only [List.length_cons]; omega⟩)
  | .mark '.' :: .text key :: s => do
    let (g, ⟨r, _⟩) ← steps? (.access f (.member key)) s
    return (g, ⟨r, by simp only [List.length_cons]; omega⟩)
  | .mark '.' :: .mark '[' :: s => do
    let (step, ⟨r, _⟩) ← bracketed? s
    let (g, ⟨r', _⟩) ← steps? (.access f step) r
    return (g, ⟨r', by simp only [List.length_cons]; omega⟩)
  | .mark '[' :: s => do
    let (step, ⟨r, _⟩) ← bracketed? s
    let (g, ⟨r', _⟩) ← steps? (.access f step) r
    return (g, ⟨r', by simp only [List.length_cons]; omega⟩)
  | s => some (f, ⟨s, Nat.le_refl _⟩)
termination_by s.length
decreasing_by all_goals (simp only [List.length_cons]; omega)

mutual

/-- Reads filters between bars; `commas` says whether commas may join them. -/
def pipeline? (commas : Bool) (s : List Lexeme) : Option (Filter × Rest s) := do
  let (f, ⟨r, _⟩) ← operand? s
  let (g, ⟨r', _⟩) ← joined? commas f r
  return (g, ⟨r', by omega⟩)
termination_by (s.length, 3)

def joined? (commas : Bool) (f : Filter) (s : List Lexeme) : Option (Filter × Left s) :=
  match s with
  | .mark '|' :: s => do
    let (g, ⟨r, _⟩) ← pipeline? commas s
    return (.pipe f g, ⟨r, by simp only [List.length_cons]; omega⟩)
  | .mark ',' :: s =>
    if commas then do
      let (g, ⟨r, _⟩) ← operand? s
      let (h, ⟨r', _⟩) ← joined? commas (.both f g) r
      return (h, ⟨r', by simp only [List.length_cons]; omega⟩)
    else some (f, ⟨.mark ',' :: s, Nat.le_refl _⟩)
  | s => some (f, ⟨s, Nat.le_refl _⟩)
termination_by (s.length, 0)

def operand? (s : List Lexeme) : Option (Filter × Rest s) := do
  let (f, ⟨r, _⟩) ← start? s
  let (g, ⟨r', _⟩) ← steps? f r
  return (g, ⟨r', by omega⟩)
termination_by (s.length, 2)

def start? (s : List Lexeme) : Option (Filter × Rest s) :=
  match s with
  | .field key :: s => some (.access .identity (.member key), ⟨s, by simp⟩)
  | .mark '.' :: .text key :: s =>
    some (.access .identity (.member key), ⟨s, length_lt_cons_cons ..⟩)
  | .mark '.' :: s => some (.identity, ⟨s, by simp⟩)
  | .word name :: s => some (.named name, ⟨s, by simp⟩)
  | .parameter name :: s => some (.parameter name, ⟨s, by simp⟩)
  | .text t :: s => some (.literal (.string t), ⟨s, by simp⟩)
  | .number v :: s => some (.literal v, ⟨s, by simp⟩)
  | .mark '-' :: .number (.integer n) :: s =>
    some (.literal (.integer (-n)), ⟨s, length_lt_cons_cons ..⟩)
  | .mark '-' :: .number (.number x) :: s =>
    some (.literal (.number x.neg), ⟨s, length_lt_cons_cons ..⟩)
  | .mark '(' :: s => do
    let (f, ⟨r, _⟩) ← pipeline? true s
    let ⟨r', _⟩ ← mark? ')' r
    return (f, ⟨r', by simp only [List.length_cons]; omega⟩)
  | .mark '[' :: .mark ']' :: s => some (.literal (.array []), ⟨s, length_lt_cons_cons ..⟩)
  | .mark '[' :: s => do
    let (f, ⟨r, _⟩) ← pipeline? true s
    let ⟨r', _⟩ ← mark? ']' r
    return (.collect f, ⟨r', by simp only [List.length_cons]; omega⟩)
  | .mark '\x7b' :: .mark '\x7d' :: s => some (.literal (.object []), ⟨s, length_lt_cons_cons ..⟩)
  | .mark '\x7b' :: s => do
    let (ms, ⟨r, _⟩) ← members? s
    return (.object ms, ⟨r, by simp only [List.length_cons]; omega⟩)
  | _ => none
termination_by (s.length, 1)

/-- Reads the members of an object up to its closing brace. A key alone stands for the member of
that key. -/
def members? (s : List Lexeme) : Option (List (String × Filter) × Rest s) := do
  let (m, ⟨r, _⟩) ← member? s
  match mark? ',' r with
  | some ⟨r', _⟩ => do
    let (ms, ⟨r'', _⟩) ← members? r'
    return (m :: ms, ⟨r'', by omega⟩)
  | none => do
    let ⟨r', _⟩ ← mark? '\x7d' r
    return ([m], ⟨r', by omega⟩)
termination_by (s.length, 1)

def member? (s : List Lexeme) : Option ((String × Filter) × Rest s) :=
  match s with
  | .word key :: .mark ':' :: s | .text key :: .mark ':' :: s => do
    let (f, ⟨r, _⟩) ← pipeline? false s
    return ((key, f), ⟨r, by simp only [List.length_cons]; omega⟩)
  | .word key :: s | .text key :: s =>
    some ((key, .access .identity (.member key)), ⟨s, by simp⟩)
  | .parameter name :: s => some ((name, .parameter name), ⟨s, by simp⟩)
  | _ => none
termination_by (s.length, 0)

end

def ofText? (text : String) : Option Filter := do
  let (f, ⟨r, _⟩) ← pipeline? true (← Lexeme.scan text.toList)
  if r.isEmpty then some f else none

end PdfSchema.Filter
