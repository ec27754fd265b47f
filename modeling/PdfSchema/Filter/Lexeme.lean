import PdfSchema.Json.Lexeme
import PdfSchema.Text.Blank
import PdfSchema.Text.Numeral

namespace PdfSchema.Filter

inductive Lexeme where
  | field (name : String)
  | word (name : String)
  | parameter (name : String)
  | number (value : Json)
  | text (value : String)
  | mark (c : Char)

namespace Lexeme

def isNameStart (c : Char) : Bool := c.isAlpha || c = '_'

def isNameChar (c : Char) : Bool := c.isAlphanum || c = '_'

def isMark (c : Char) : Bool := "|,:.-[](){}".toList.contains c

def codePoint? (ds : List Char) : Option Char :=
  let value := ds.foldlM (fun n d =>
    if d.toNat < 128 then (Json.Lexeme.hexValue? d.val.toUInt8).map (16 * n + ·) else none) 0
  value.bind fun n => if n.isValidChar then some (Char.ofNat n) else none

def simpleEscape? (c : Char) : Option Char :=
  if c.toNat < 128 then
    (Json.Lexeme.simpleEscape? c.val.toUInt8).map fun b => Char.ofNat b.toNat
  else none

def withFirst (c : Option Char) (r : Option (List Char × List Char)) :
    Option (List Char × List Char) :=
  match c, r with
  | some c, some (cs, rest) => some (c :: cs, rest)
  | _, _ => none

def string? : List Char → Option (List Char × List Char)
  | [] => none
  | '"' :: s => some ([], s)
  | '\\' :: 'u' :: a :: b :: c :: d :: s => withFirst (codePoint? [a, b, c, d]) (string? s)
  | '\\' :: e :: s => withFirst (simpleEscape? e) (string? s)
  | c :: s => withFirst (some c) (string? s)

theorem withFirst_eq_some {c : Option Char} {r : Option (List Char × List Char)}
    {cs rest : List Char} (h : withFirst c r = some (cs, rest)) : ∃ cs', r = some (cs', rest) := by
  unfold withFirst at h
  split at h <;> simp_all

theorem string?_length {s cs rest : List Char} (h : string? s = some (cs, rest)) :
    rest.length ≤ s.length := by
  fun_induction string? s generalizing cs rest with
  | case1 => cases h
  | case2 => cases h; simp
  | case3 a b c d s ih | case4 e s _ ih | case5 c s _ _ _ ih =>
    obtain ⟨cs', h⟩ := withFirst_eq_some h
    have := ih h
    simp only [List.length_cons]
    omega

/-- How many characters of `s` continue a numeral: digits, then perhaps a point and digits, then
perhaps an exponent. -/
def numeralLength (s : List Char) : Nat :=
  let digits (s : List Char) : Nat := (s.takeWhile Char.isDigit).length
  let whole := digits s
  let places := match s.drop whole with
    | '.' :: t => 1 + digits t
    | _ => 0
  let exponent := match s.drop (whole + places) with
    | e :: t =>
      if e = 'e' || e = 'E' then
        let sign := if t.head? = some '+' || t.head? = some '-' then 1 else 0
        1 + sign + digits (t.drop sign)
      else 0
    | [] => 0
  whole + places + exponent

def numeralValue? (ds : List Char) : Option Json :=
  match Text.natural? UInt64.size ds with
  | some n => some (.integer n)
  | none => match Json.Lexeme.all (String.ofList ds).toUTF8.toList with
    | [.word (.ok v) _] => some v
    | _ => none

/-- The lexemes of a text, unless something in it is none. Blanks are skipped, and so are comments
up to the end of their line. -/
def scan (s : List Char) : Option (List Lexeme) :=
  match s with
  | [] => some []
  | c :: s =>
    if Text.isBlank c then scan s
    else if c = '#' then scan (s.dropWhile (· ≠ '\n'))
    else if c.isDigit then do
      let n := numeralLength s
      let v ← numeralValue? (c :: s.take n)
      return .number v :: (← scan (s.drop n))
    else if c = '"' then
      match _h : string? s with
      | some (cs, rest) => do return .text (String.ofList cs) :: (← scan rest)
      | none => none
    else if isNameStart c then do
      let name := c :: s.takeWhile isNameChar
      return .word (String.ofList name) :: (← scan (s.dropWhile isNameChar))
    else if (c = '.' || c = '$') && s.head?.any isNameStart then do
      let name := String.ofList (s.takeWhile isNameChar)
      return (if c = '.' then .field name else .parameter name) ::
        (← scan (s.dropWhile isNameChar))
    else if isMark c then do return .mark c :: (← scan s)
    else none
termination_by s.length
decreasing_by
  all_goals simp only [List.length_cons, List.length_drop]
  all_goals first
    | omega
    | exact Nat.lt_succ_of_le (List.dropWhile_suffix _).length_le
    | exact Nat.lt_succ_of_le (string?_length _h)

end Lexeme

end PdfSchema.Filter
