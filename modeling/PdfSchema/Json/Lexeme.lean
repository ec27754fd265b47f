import PdfSchema.Json.Basic
import PdfSchema.Text.Utf8

namespace PdfSchema.Json

inductive Fault where
  | endInValue
  | endInObject
  | endInList
  | endInString
  | expectedValue
  | expectedWord
  | expectedColon
  | expectedMember
  | expectedItem
  | trailingComma
  | trailingCharacters
  | keyNotString
  | invalidNumber
  | numberOutOfRange
  | invalidEscape
  | unfinishedSurrogate
  | loneSurrogate
  | controlCharacter
  | invalidCodePoint
  | tooDeep
  deriving DecidableEq, Repr

def Fault.message : Fault → String
  | endInValue => "EOF while parsing a value"
  | endInObject => "EOF while parsing an object"
  | endInList => "EOF while parsing a list"
  | endInString => "EOF while parsing a string"
  | expectedValue => "expected value"
  | expectedWord => "expected ident"
  | expectedColon => "expected `:`"
  | expectedMember => "expected `,` or `\x7d`"
  | expectedItem => "expected `,` or `]`"
  | trailingComma => "trailing comma"
  | trailingCharacters => "trailing characters"
  | keyNotString => "key must be a string"
  | invalidNumber => "invalid number"
  | numberOutOfRange => "number out of range"
  | invalidEscape => "invalid escape"
  | unfinishedSurrogate => "unexpected end of hex escape"
  | loneSurrogate => "lone leading surrogate in hex escape"
  | controlCharacter => "control character (\\u0000-\\u001F) found while parsing a string"
  | invalidCodePoint => "invalid unicode code point"
  | tooDeep => "recursion limit exceeded"

/-- A lexeme. `fault` is what is wrong with it when it is skipped. -/
inductive Lexeme where
  | openArray
  | closeArray
  | openObject
  | closeObject
  | comma
  | colon
  | string (value : Except Fault String) (fault : Option Fault)
  | word (value : Except Fault Json) (fault : Option Fault)
  | stray

namespace Lexeme

def isDigit (b : UInt8) : Bool := 48 ≤ b && b ≤ 57

def isBlank (b : UInt8) : Bool := b = 32 || b = 10 || b = 9 || b = 13

def hexValue? (b : UInt8) : Option Nat :=
  if isDigit b then some (b.toNat - 48)
  else if 97 ≤ b && b ≤ 102 then some (b.toNat - 87)
  else if 65 ≤ b && b ≤ 70 then some (b.toNat - 55)
  else none

def hex4 (s : List UInt8) : Except Fault (Nat × List UInt8) :=
  match s with
  | a :: b :: c :: d :: rest =>
    match hexValue? a, hexValue? b, hexValue? c, hexValue? d with
    | some a, some b, some c, some d => .ok (((a * 16 + b) * 16 + c) * 16 + d, rest)
    | _, _, _, _ => .error .invalidEscape
  | _ => .error .endInString

def simpleEscape? (b : UInt8) : Option UInt8 :=
  if b = 34 || b = 92 || b = 47 then some b
  else if b = 98 then some 8
  else if b = 102 then some 12
  else if b = 110 then some 10
  else if b = 114 then some 13
  else if b = 116 then some 9
  else none

def utf8 (code : Nat) : List UInt8 := (String.singleton (Char.ofNat code)).toUTF8.toList

theorem hex4_length {s rest : List UInt8} {n : Nat} (h : hex4 s = .ok (n, rest)) :
    rest.length ≤ s.length := by
  unfold hex4 at h
  split at h
  · split at h
    · cases h
      simp only [List.length_cons]
      omega
    · cases h
  · cases h

def secondEscape (s : List UInt8) : Except Fault (Nat × List UInt8) :=
  match s with
  | [] => .error .endInString
  | [b] => .error (if b = 92 then .endInString else .unfinishedSurrogate)
  | b :: u :: rest => if b = 92 ∧ u = 117 then hex4 rest else .error .unfinishedSurrogate

theorem secondEscape_length {s rest : List UInt8} {n : Nat}
    (h : secondEscape s = .ok (n, rest)) : rest.length ≤ s.length := by
  unfold secondEscape at h
  split at h
  · cases h
  · cases h
  · split at h
    · have := hex4_length h
      simp only [List.length_cons]
      omega
    · cases h

/-- The bytes of the code point whose escape goes on with `s` after `\u`, and what follows. A high
surrogate needs a low one after it. -/
def unicodeEscape (s : List UInt8) : Except Fault (List UInt8 × List UInt8) :=
  match hex4 s with
  | .error f => .error f
  | .ok (n, rest) =>
    if 0xDC00 ≤ n ∧ n ≤ 0xDFFF then .error .loneSurrogate
    else if n < 0xD800 ∨ 0xDBFF < n then .ok (utf8 n, rest)
    else match secondEscape rest with
      | .error f => .error f
      | .ok (low, rest) =>
        if low < 0xDC00 ∨ 0xDFFF < low then .error .loneSurrogate
        else .ok (utf8 (0x10000 + (n - 0xD800) * 1024 + (low - 0xDC00)), rest)

theorem unicodeEscape_length {s bytes rest : List UInt8}
    (h : unicodeEscape s = .ok (bytes, rest)) : rest.length ≤ s.length := by
  unfold unicodeEscape at h
  split at h
  · cases h
  · rename_i n rest' h4
    have hr := hex4_length h4
    split at h
    · cases h
    · split at h
      · cases h
        exact hr
      · split at h
        · cases h
        · rename_i h2
          split at h
          · cases h
          · cases h
            exact Nat.le_trans (secondEscape_length h2) hr

def stringBytes (done : List UInt8) (s : List UInt8) : Except Fault (List UInt8) :=
  match s with
  | [] => .error .endInString
  | b :: s =>
    if b = 34 then .ok done.reverse
    else if b < 32 then .error .controlCharacter
    else if b ≠ 92 then stringBytes (b :: done) s
    else match s with
      | [] => .error .endInString
      | e :: s =>
        if e = 117 then match h : unicodeEscape s with
          | .error f => .error f
          | .ok (bytes, rest) =>
            have := unicodeEscape_length h
            stringBytes (bytes.reverse ++ done) rest
        else match simpleEscape? e with
          | some b => stringBytes (b :: done) s
          | none => .error .invalidEscape
termination_by s.length
decreasing_by all_goals (simp_all only [List.length_cons]; omega)

def stringValue (s : List UInt8) : Except Fault String := do
  let bytes ← stringBytes [] s
  match Text.decodeUtf8 bytes with
  | .ok text => .ok text
  | .error _ => .error .invalidCodePoint

def skipString (s : List UInt8) : Except Fault (List UInt8) :=
  match s with
  | [] => .error .endInString
  | b :: s =>
    if b = 34 then .ok s
    else if b < 32 then .error .controlCharacter
    else if b ≠ 92 then skipString s
    else match s with
      | [] => .error .endInString
      | e :: s =>
        if e = 117 then match s with
          | a :: b :: c :: d :: rest =>
            if ([a, b, c, d].all fun x => (hexValue? x).isSome) then skipString rest
            else .error .invalidEscape
          | _ => .error .endInString
        else if (simpleEscape? e).isSome then skipString s
        else .error .invalidEscape

theorem skipString_length {s rest : List UInt8} (h : skipString s = .ok rest) :
    rest.length ≤ s.length := by
  fun_induction skipString s generalizing rest <;> simp_all <;> grind

def maxWord : Nat := UInt64.size - 1

def digitsValue (ds : List UInt8) : Nat := ds.foldl (fun n d => 10 * n + (d.toNat - 48)) 0

/-- The longest start of `ds` that continues the numeral `n` within `maxWord`, as the number so far
and the digits left. -/
def takeDigits (n : Nat) : List UInt8 → Nat × List UInt8
  | [] => (n, [])
  | d :: ds =>
    let m := 10 * n + (d.toNat - 48)
    if m > maxWord then (n, d :: ds) else takeDigits m ds

def powerOfTen (n : Nat) : Double := Double.ofDecimal false 1 n

/-- The number `significand * 10 ^ exponent`. It is scaled by one multiplication or division where
the power is a double, after divisions by `10 ^ 308` where it is too small for that. -/
def scaled (significand : Double) (exponent : Int) : Except Fault Double :=
  if 0 ≤ exponent then
    if exponent ≤ 308 then
      let x := significand.mul (powerOfTen exponent.toNat)
      if x.isFinite then .ok x else .error .numberOutOfRange
    else if significand.isZero then .ok significand
    else .error .numberOutOfRange
  else if -308 ≤ exponent then .ok (significand.div (powerOfTen exponent.natAbs))
  else if significand.isZero then .ok significand
  else scaled (significand.div (powerOfTen 308)) (exponent + 308)
termination_by exponent.natAbs
decreasing_by omega

/-- Exponents are cut off here; no sum with the places of a numeral comes near. -/
def maxExponent : Nat := 0x7fffffff

structure Numeral where
  whole : List UInt8
  places : Option (List UInt8)
  exponent : Option (Bool × List UInt8)

def splitPlaces (s : List UInt8) : Option (List UInt8) × List UInt8 :=
  match s with
  | 46 :: t => (some (t.takeWhile isDigit), t.dropWhile isDigit)
  | _ => (none, s)

def splitExponent (s : List UInt8) : Option (Bool × List UInt8) × List UInt8 :=
  match s with
  | b :: t =>
    if b = 101 || b = 69 then
      let t' := if t.head? = some 43 ∨ t.head? = some 45 then t.drop 1 else t
      (some (t.head? ≠ some 45, t'.takeWhile isDigit), t'.dropWhile isDigit)
    else (none, s)
  | [] => (none, s)

def splitNumeral (s : List UInt8) : Numeral × List UInt8 :=
  let (places, rest) := splitPlaces (s.dropWhile isDigit)
  let (exponent, rest) := if places = some [] then (none, rest) else splitExponent rest
  (⟨s.takeWhile isDigit, places, exponent⟩, rest)

theorem length_dropWhile_le (p : UInt8 → Bool) (s : List UInt8) :
    (s.dropWhile p).length ≤ s.length :=
  (List.dropWhile_suffix p).length_le

theorem splitPlaces_length (s : List UInt8) : (splitPlaces s).2.length ≤ s.length := by
  unfold splitPlaces
  split
  · exact Nat.le_succ_of_le (length_dropWhile_le _ _)
  · exact Nat.le_refl _

theorem splitExponent_length (s : List UInt8) : (splitExponent s).2.length ≤ s.length := by
  unfold splitExponent
  split
  · rename_i b t
    split
    · have h := length_dropWhile_le isDigit
        (if t.head? = some 43 ∨ t.head? = some 45 then t.drop 1 else t)
      refine Nat.le_trans h ?_
      split
      · simp only [List.length_drop, List.length_cons]
        omega
      · exact Nat.le_succ _
    · exact Nat.le_refl _
  · exact Nat.le_refl _

theorem splitNumeral_length (s : List UInt8) :
    (splitNumeral s).2.length ≤ (s.dropWhile isDigit).length := by
  have hp := splitPlaces_length (s.dropWhile isDigit)
  unfold splitNumeral
  simp only
  split
  · exact hp
  · exact Nat.le_trans (splitExponent_length _) hp

def Numeral.fault? (n : Numeral) (rest : List UInt8) (atEnd : Fault) : Option Fault :=
  let missing := if rest.isEmpty then atEnd else .invalidNumber
  if n.whole.isEmpty then some missing
  else if n.whole.length > 1 ∧ n.whole.head? = some 48 then some .invalidNumber
  else if n.places = some [] then some missing
  else if (n.exponent.map Prod.snd) = some [] then some missing
  else none

/-- The value of a well-formed numeral. An integer within 64 bits is one; else digits beyond
`maxWord` are dropped and the number is a double. -/
def Numeral.value (n : Numeral) (negative : Bool) : Except Fault Json :=
  let (head, dropped) := takeDigits 0 n.whole
  let isInteger := dropped.isEmpty && n.places.isNone && n.exponent.isNone
  if isInteger && !negative then .ok (.integer head)
  else if isInteger && 0 < head && head ≤ 0x8000000000000000 then .ok (.integer (-(head : Int)))
  else
    let places := n.places.getD []
    let (significand, unused) := takeDigits head places
    let scale : Int := dropped.length - (places.length - unused.length : Nat)
    let signed (x : Double) : Json := .number (if negative then x.neg else x)
    match n.exponent with
    | none => (scaled (.ofNat significand) scale).map signed
    | some (positive, ds) =>
      let e := digitsValue ds
      if e > maxExponent then
        if significand ≠ 0 ∧ positive then .error .numberOutOfRange
        else .ok (signed (.zero false))
      else
        let e : Int := if positive then e else -(e : Int)
        (scaled (.ofNat significand) (scale + e)).map signed

def number (negative : Bool) (s : List UInt8) : Lexeme × List UInt8 :=
  let (n, rest) := splitNumeral s
  match n.fault? rest .endInValue with
  | some f => (.word (.error f) (n.fault? rest .invalidNumber), rest)
  | none => (.word (n.value negative) none, rest)

theorem number_length (negative : Bool) (s : List UInt8) :
    (number negative s).2.length ≤ (s.dropWhile isDigit).length := by
  have h := splitNumeral_length s
  unfold number
  simp only
  split <;> exact h

def wordFault? : List UInt8 → List UInt8 → Option Fault
  | [], _ => none
  | _ :: _, [] => some .endInValue
  | c :: w, b :: s => if c = b then wordFault? w s else some .expectedWord

def keyword (w : List UInt8) (value : Json) (s : List UInt8) : Lexeme :=
  match wordFault? w s with
  | some f => .word (.error f) (some f)
  | none => .word (.ok value) none

def mark? (b : UInt8) : Option Lexeme :=
  if b = 91 then some .openArray
  else if b = 93 then some .closeArray
  else if b = 123 then some .openObject
  else if b = 125 then some .closeObject
  else if b = 44 then some .comma
  else if b = 58 then some .colon
  else none

def word? (b : UInt8) : Option (List UInt8 × Json) :=
  if b = 110 then some ("ull".toUTF8.toList, .null)
  else if b = 116 then some ("rue".toUTF8.toList, .boolean true)
  else if b = 102 then some ("alse".toUTF8.toList, .boolean false)
  else none

def readString (s : List UInt8) : Lexeme × List UInt8 :=
  match skipString s with
  | .ok rest => (.string (stringValue s) none, rest)
  | .error f => (.string (stringValue s) (some f), [])

def read (b : UInt8) (s : List UInt8) : Lexeme × List UInt8 :=
  match mark? b, word? b with
  | some mark, _ => (mark, s)
  | none, some (w, value) => (keyword w value s, s.drop w.length)
  | none, none =>
    if b = 34 then readString s
    else if b = 45 then number true s
    else if isDigit b then number false (b :: s)
    else (.stray, [])

theorem readString_length (s : List UInt8) : (readString s).2.length ≤ s.length := by
  unfold readString
  split
  · rename_i h
    exact skipString_length h
  · exact Nat.zero_le _

theorem read_length (b : UInt8) (s : List UInt8) : (read b s).2.length ≤ s.length := by
  unfold read
  split
  · exact Nat.le_refl _
  · simp only [List.length_drop]
    omega
  · split
    · exact readString_length s
    · split
      · exact Nat.le_trans (number_length true s) (length_dropWhile_le _ _)
      · split
        · rename_i hd
          have h := number_length false (b :: s)
          rw [List.dropWhile_cons_of_pos hd] at h
          exact Nat.le_trans h (length_dropWhile_le _ _)
        · exact Nat.zero_le _

def all (s : List UInt8) : List Lexeme :=
  match s with
  | [] => []
  | b :: s => if isBlank b then all s else (read b s).1 :: all (read b s).2
termination_by s.length
decreasing_by
  · exact Nat.lt_succ_self _
  · exact Nat.lt_succ_of_le (read_length b s)

end Lexeme

end PdfSchema.Json
