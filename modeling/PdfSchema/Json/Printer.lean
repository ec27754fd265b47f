import PdfSchema.Json.Basic

namespace PdfSchema.Json

def hexDigits (n : Nat) : List Char :=
  [Nat.digitChar (n / 16), Nat.digitChar (n % 16)]

def escape (c : Char) : List Char :=
  match c with
  | '"' => ['\\', '"']
  | '\\' => ['\\', '\\']
  | '\n' => ['\\', 'n']
  | '\r' => ['\\', 'r']
  | '\t' => ['\\', 't']
  | '\x08' => ['\\', 'b']
  | '\x0c' => ['\\', 'f']
  | c => if c.toNat < 0x20 then '\\' :: 'u' :: '0' :: '0' :: hexDigits c.toNat else [c]

def quote (s : String) : String :=
  String.ofList ('"' :: s.toList.flatMap escape ++ ['"'])

/-- Digits at a decimal scale as a numeral: plain where the leading digit stands at `10 ^ -5` to
`10 ^ 15`, with at least one digit on each side of the point; elsewhere with a signed exponent. -/
def placeDigits (ds : List Char) (scale : Int) : List Char :=
  let lead : Int := scale + ds.length - 1
  if -5 ≤ lead ∧ lead < 0 then
    '0' :: '.' :: List.replicate (-lead - 1).toNat '0' ++ ds
  else if 0 ≤ lead ∧ lead ≤ 15 then
    if 0 ≤ scale then ds ++ List.replicate scale.toNat '0' ++ ['.', '0']
    else ds.take (lead + 1).toNat ++ '.' :: ds.drop (lead + 1).toNat
  else
    let places := if ds.length = 1 then [] else '.' :: ds.drop 1
    let sign := if lead < 0 then '-' else '+'
    ds.take 1 ++ places ++ 'e' :: sign :: Nat.toDigits 10 lead.natAbs

/-- The shortest numeral that reads back as `x`; `null` where there is none. -/
def numeral (x : Double) : String :=
  if x.isFinite then
    let d := x.shortest
    let body := placeDigits (Nat.toDigits 10 d.digits) d.scale
    String.ofList (if x.isNegative then '-' :: body else body)
  else "null"

mutual

def render : Json → String
  | null => "null"
  | boolean b => if b then "true" else "false"
  | integer n => toString n
  | number x => numeral x
  | string s => quote s
  | array items => "[" ++ ",".intercalate (renderItems items) ++ "]"
  | object members => "\x7b" ++ ",".intercalate (renderMembers members) ++ "\x7d"

def renderItems : List Json → List String
  | [] => []
  | v :: vs => v.render :: renderItems vs

def renderMembers : List (String × Json) → List String
  | [] => []
  | (k, v) :: ms => (quote k ++ ":" ++ v.render) :: renderMembers ms

end

def newline (depth : Nat) : String := String.ofList ('\n' :: List.replicate (2 * depth) ' ')

def block (start stop : String) (depth : Nat) (items : List String) : String :=
  if items.isEmpty then start ++ stop
  else start ++ newline (depth + 1) ++ ("," ++ newline (depth + 1)).intercalate items ++
    newline depth ++ stop

mutual

def pretty (depth : Nat) : Json → String
  | null => "null"
  | boolean b => if b then "true" else "false"
  | integer n => toString n
  | number x => numeral x
  | string s => quote s
  | array items => block "[" "]" depth (prettyItems (depth + 1) items)
  | object members => block "\x7b" "\x7d" depth (prettyMembers (depth + 1) members)

def prettyItems (depth : Nat) : List Json → List String
  | [] => []
  | v :: vs => v.pretty depth :: prettyItems depth vs

def prettyMembers (depth : Nat) : List (String × Json) → List String
  | [] => []
  | (k, v) :: ms => (quote k ++ ": " ++ v.pretty depth) :: prettyMembers depth ms

end

end PdfSchema.Json
