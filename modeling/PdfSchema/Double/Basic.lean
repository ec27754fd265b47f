namespace PdfSchema

structure Double where
  bits : UInt64
  deriving DecidableEq, Repr, Inhabited

namespace Double

def signBit : Nat := 1 <<< 63

/-- The bit above the fraction, which is not kept in the bits of a normal number. -/
def hiddenBit : Nat := 1 <<< 52

def isNegative (x : Double) : Bool := x.bits.toNat ≥ signBit

def exponentField (x : Double) : Nat := x.bits.toNat / hiddenBit % 2048

def fractionField (x : Double) : Nat := x.bits.toNat % hiddenBit

def isFinite (x : Double) : Bool := x.exponentField ≠ 2047

/-- The natural `m` of a finite number `± m * 2 ^ q`. -/
def mantissa (x : Double) : Nat :=
  if x.exponentField = 0 then x.fractionField else x.fractionField + hiddenBit

/-- The integer `q` of a finite number `± m * 2 ^ q`. -/
def exponent (x : Double) : Int :=
  if x.exponentField = 0 then -1074 else (x.exponentField : Int) - 1075

def isZero (x : Double) : Bool := x.isFinite && x.mantissa = 0

def ofSignMagnitude (negative : Bool) (magnitude : Nat) : Double :=
  ⟨UInt64.ofNat (if negative then magnitude + signBit else magnitude)⟩

def zero (negative : Bool) : Double := ofSignMagnitude negative 0

def infinity (negative : Bool) : Double := ofSignMagnitude negative (2047 * hiddenBit)

/-- The natural nearest to `num / den`, the even one of two. -/
def roundRatio (num den : Nat) : Nat :=
  let q := num / den
  let r := num % den
  if 2 * r < den then q
  else if 2 * r > den then q + 1
  else if q % 2 = 0 then q else q + 1

def ratioLog2 (num den : Nat) : Int :=
  let k : Int := (num.log2 : Int) - den.log2
  if num <<< (-k).toNat < den <<< k.toNat then k - 1 else k

/-- The double nearest to `num / den`; an infinity where that is out of range. -/
def ofRatio (negative : Bool) (num den : Nat) : Double :=
  if num = 0 then zero negative
  else
    let q := max (ratioLog2 num den - 52) (-1074)
    let m := roundRatio (num <<< (-q).toNat) (den <<< q.toNat)
    if m < hiddenBit then ofSignMagnitude negative m
    else if q > 971 then infinity negative
    else
      let magnitude := (q + 1075).toNat * hiddenBit + (m - hiddenBit)
      ofSignMagnitude negative magnitude

def ofNat (n : Nat) : Double := ofRatio false n 1

def ratio (x : Double) : Nat × Nat :=
  (x.mantissa <<< x.exponent.toNat, 1 <<< (-x.exponent).toNat)

def mul (x y : Double) : Double :=
  ofRatio (x.isNegative != y.isNegative) (x.ratio.1 * y.ratio.1) (x.ratio.2 * y.ratio.2)

def div (x y : Double) : Double :=
  ofRatio (x.isNegative != y.isNegative) (x.ratio.1 * y.ratio.2) (x.ratio.2 * y.ratio.1)

def neg (x : Double) : Double :=
  ofSignMagnitude (!x.isNegative) (x.bits.toNat % signBit)

end Double

end PdfSchema
