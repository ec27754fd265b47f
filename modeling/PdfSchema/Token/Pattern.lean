import PdfSchema.Token.Basic

namespace PdfSchema.Token

def isWordChar (c : Char) : Bool := c.isAlphanum || c = '_'

def isSegmentChar (c : Char) : Bool := isWordChar c || c = '.' || c = '-'

def isNameChar (c : Char) : Bool := isSegmentChar c || c = ':'

namespace Pattern

def run (p : Char → Bool) (s : List Char) : Nat := (s.takeWhile p).length

def run1? (p : Char → Bool) (s : List Char) : Option Nat :=
  if run p s = 0 then none else some (run p s)

def fixed? (w s : List Char) : Option Nat :=
  if w.isPrefixOf s then some w.length else none

/-- The word `w` in any case, not followed by a character that would continue a word. The long s
is the lower case of `S` too. -/
def anyCase? (w s : List Char) : Option Nat :=
  let same (a b : Char) : Bool := b.toLower = a || (a = 's' && b = 'ſ')
  if s.length ≥ w.length && (w.zip s).all fun (a, b) => same a b then
    if (s.drop w.length).head?.any isWordChar then none else some w.length
  else none

def word? (w s : List Char) : Option Nat :=
  if w.isPrefixOf s && !(s.drop w.length).head?.any isWordChar then some w.length else none

/-- `fn:`, a capital letter, at least one more letter or digit, and `(`. -/
def functionHead? (s : List Char) : Option Nat :=
  match s with
  | 'f' :: 'n' :: ':' :: c :: rest =>
    let n := run Char.isAlphanum rest
    if c.isUpper && n ≠ 0 && (rest.drop n).head? = some '(' then some (n + 5) else none
  | _ => none

def quoted? (s : List Char) : Option Nat :=
  match s with
  | '\'' :: rest =>
    let n := run (· ≠ '\'') rest
    if n ≠ 0 && (rest.drop n).head? = some '\'' then some (n + 2) else none
  | _ => none

def keyValue? (s : List Char) : Option Nat :=
  match s with
  | '@' :: rest =>
    let digits := run Char.isDigit rest
    if (rest.drop digits).head? = some '*' then some (digits + 2)
    else (run1? isSegmentChar rest).map (· + 1)
  | _ => none

/-- What every key starts with: digits, none as well, and then `*` or a character in `p`. -/
def keyStart? (p : Char → Bool) (s : List Char) : Option Nat :=
  let digits := run Char.isDigit s
  match (s.drop digits).head? with
  | some c => if c = '*' || p c then some (digits + 1) else none
  | none => none

def keyName? (s : List Char) : Option Nat :=
  (keyStart? (fun c => c.isAlpha || c = '_') s).map fun n => n + run isNameChar (s.drop n)

def segment? (s : List Char) : Option Nat := do
  let n ← keyStart? Char.isAlpha s
  let n := n + run isSegmentChar (s.drop n)
  let m ← fixed? [':', ':'] (s.drop n)
  return n + m

theorem segment?_length {s : List Char} {n : Nat} (h : segment? s = some n) :
    (s.drop n).length < s.length := by
  cases s with
  | nil => simp [segment?, keyStart?, run] at h
  | cons c s =>
    simp only [segment?, fixed?, Option.bind_eq_bind, Option.bind_eq_some_iff] at h
    obtain ⟨k, _, m, hm, h⟩ := h
    split at hm
    · cases hm
      cases h
      simp only [List.length_drop, List.length_cons]
      omega
    · cases hm

def segments (s : List Char) : Nat :=
  match _h : segment? s with
  | some n => n + segments (s.drop n)
  | none => 0
termination_by s.length
decreasing_by exact segment?_length _h

def keyPath? (s : List Char) : Option Nat :=
  if segments s = 0 then none else some (segments s)

def integer? (s : List Char) : Option Nat :=
  match s with
  | '-' :: ds => (run1? Char.isDigit ds).map (· + 1)
  | ds => run1? Char.isDigit ds

def real? (s : List Char) : Option Nat := do
  let whole ← integer? s
  match s.drop whole with
  | '.' :: ds => (run1? Char.isDigit ds).map (whole + 1 + ·)
  | _ => none

end Pattern

def Kind.match? (k : Kind) (s : List Char) : Option Nat :=
  match k with
  | functionHead => Pattern.functionHead? s
  | trueWord => Pattern.anyCase? "true".toList s
  | falseWord => Pattern.anyCase? "false".toList s
  | quoted => Pattern.quoted? s
  | modulo => Pattern.word? "mod".toList s
  | ellipsis => Pattern.fixed? "...".toList s
  | keyValue => Pattern.keyValue? s
  | keyPath => Pattern.keyPath? s
  | keyName => Pattern.keyName? s
  | pathSeparator => Pattern.fixed? "::".toList s
  | openBracket => Pattern.fixed? ['['] s
  | closeBracket => Pattern.fixed? [']'] s
  | eq => Pattern.fixed? "==".toList s
  | ne => Pattern.fixed? "!=".toList s
  | ge => Pattern.fixed? ">=".toList s
  | le => Pattern.fixed? "<=".toList s
  | and => Pattern.fixed? "&&".toList s
  | or => Pattern.fixed? "||".toList s
  | gt => Pattern.fixed? ['>'] s
  | lt => Pattern.fixed? ['<'] s
  | real => Pattern.real? s
  | integer => Pattern.integer? s
  | plus => Pattern.fixed? ['+'] s
  | minus => Pattern.fixed? ['-'] s
  | times => Pattern.fixed? ['*'] s
  | divide => Pattern.fixed? ['/'] s
  | openParen => Pattern.fixed? ['('] s
  | closeParen => Pattern.fixed? [')'] s
  | comma => Pattern.fixed? [','] s

/-- All kinds, each one before those that it takes precedence over. -/
def Kind.byPriority : List Kind :=
  [functionHead, trueWord, falseWord, quoted, modulo, ellipsis, keyValue, keyPath, keyName,
    pathSeparator, openBracket, closeBracket, eq, ne, ge, le, and, or, gt, lt, real, integer,
    plus, minus, times, divide, openParen, closeParen, comma]

def first? (s : List Char) : Option (Kind × Nat) :=
  Kind.byPriority.findSome? fun k => (k.match? s).map (k, ·)

end PdfSchema.Token
