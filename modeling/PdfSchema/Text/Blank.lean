namespace PdfSchema.Text

/-- The characters that have the Unicode property White_Space. -/
def isBlank (c : Char) : Bool :=
  let n := c.toNat
  (9 ≤ n && n ≤ 13) || n == 0x20 || n == 0x85 || n == 0xA0 || n == 0x1680 ||
    (0x2000 ≤ n && n ≤ 0x200A) || n == 0x2028 || n == 0x2029 || n == 0x202F ||
    n == 0x205F || n == 0x3000

def trimmed (s : List Char) : List Char :=
  ((s.dropWhile isBlank).reverse.dropWhile isBlank).reverse

def trim (s : String) : String := String.ofList (trimmed s.toList)

/-- The pieces of `s` between the characters that satisfy `sep`; one more than there are such
characters. -/
def splitBy (sep : Char → Bool) : List Char → List (List Char)
  | [] => [[]]
  | c :: cs =>
    if sep c then [] :: splitBy sep cs
    else match splitBy sep cs with
      | [] => [[c]]
      | piece :: pieces => (c :: piece) :: pieces

def words (s : List Char) : List (List Char) :=
  (splitBy isBlank s).filter (!·.isEmpty)

def byteLength (s : List Char) : Nat := s.foldl (fun n c => n + c.utf8Size) 0

end PdfSchema.Text
