namespace PdfSchema.Text

def decimalValue (ds : List Char) : Nat :=
  ds.foldl (fun n c => 10 * n + (c.toNat - '0'.toNat)) 0

/-- The value of a numeral with an optional sign `+`, if it is below `bound`. -/
def natural? (bound : Nat) (s : List Char) : Option Nat :=
  let digits := match s with
    | '+' :: ds => ds
    | ds => ds
  if digits.isEmpty || !digits.all Char.isDigit then none
  else if decimalValue digits < bound then some (decimalValue digits)
  else none

end PdfSchema.Text
