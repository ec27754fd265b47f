namespace PdfSchema.Text

def isContinuation (b : UInt8) : Bool := 0x80 ≤ b && b < 0xC0

def payload (b : UInt8) : Nat := b.toNat % 64

def firstChar? (bytes : List UInt8) : Option (Char × Nat) :=
  let checked (code least size : Nat) : Option (Char × Nat) :=
    if least ≤ code && code.isValidChar then some (Char.ofNat code, size) else none
  match bytes with
  | [] => none
  | a :: rest =>
    if a < 0x80 then some (Char.ofNat a.toNat, 1)
    else if a < 0xC0 then none
    else if a < 0xE0 then match rest with
      | b :: _ =>
        if isContinuation b then checked (a.toNat % 32 * 64 + payload b) 0x80 2 else none
      | _ => none
    else if a < 0xF0 then match rest with
      | b :: c :: _ =>
        if isContinuation b && isContinuation c then
          checked ((a.toNat % 16 * 64 + payload b) * 64 + payload c) 0x800 3
        else none
      | _ => none
    else if a < 0xF8 then match rest with
      | b :: c :: d :: _ =>
        if isContinuation b && isContinuation c && isContinuation d then
          checked (((a.toNat % 8 * 64 + payload b) * 64 + payload c) * 64 + payload d) 0x10000 4
        else none
      | _ => none
    else none

/-- The characters of `bytes`, of which the first stands at the byte `offset`; or the place of the
first byte that starts no character. -/
def decodeFrom (offset : Nat) (bytes : List UInt8) : Except Nat (List Char) :=
  match bytes with
  | [] => .ok []
  | b :: bs =>
    match firstChar? (b :: bs) with
    | none => .error offset
    | some (c, n) => do
      let cs ← decodeFrom (offset + n) (bs.drop (n - 1))
      return c :: cs
termination_by bytes.length
decreasing_by all_goals (simp only [List.length_cons, List.length_drop]; omega)

def decodeUtf8 (bytes : List UInt8) : Except Nat String :=
  (decodeFrom 0 bytes).map String.ofList

end PdfSchema.Text
