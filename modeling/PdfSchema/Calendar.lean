namespace PdfSchema

structure Date where
  year : Int
  month : Nat
  day : Nat
  deriving DecidableEq, Repr

namespace Date

def epoch : Int := 719468

def cycle : Nat := 146097

/-- The number of whole years, counted from March, in the first `days` days of a cycle. -/
def yearsIn (days : Nat) : Nat :=
  (days - days / 1460 + days / 36524 - days / 146096) / 365

def daysOfYears (years : Nat) : Nat := 365 * years + years / 4 - years / 100

def daysOfMonths (months : Nat) : Nat := (153 * months + 2) / 5

def ofDays (days : Int) : Date :=
  let shifted := days + epoch
  let inCycle := (shifted % cycle).toNat
  let years := yearsIn inCycle
  let inYear := inCycle - daysOfYears years
  let months := (5 * inYear + 2) / 153
  let month := if months < 10 then months + 3 else months - 9
  { year := shifted / cycle * 400 + years + (if month ≤ 2 then 1 else 0)
    month
    day := inYear - daysOfMonths months + 1 }

end Date

/-- A date and a time of day, on a clock that is `offset` seconds ahead of universal time. -/
structure Moment where
  date : Date
  hour : Nat
  minute : Nat
  second : Nat
  offset : Int
  deriving DecidableEq, Repr

namespace Moment

def ofSeconds (offset seconds : Int) : Moment :=
  let shown := seconds + offset
  let inDay := (shown % 86400).toNat
  { date := Date.ofDays (shown / 86400)
    hour := inDay / 3600
    minute := inDay / 60 % 60
    second := inDay % 60
    offset }

def padded (width n : Nat) : String :=
  let ds := Nat.toDigits 10 n
  String.ofList (List.replicate (width - ds.length) '0' ++ ds)

/-- A year in four digits; one that needs more, or that is negative, has a sign. -/
def renderYear (year : Int) : String :=
  if year < 0 then "-" ++ padded 4 year.natAbs
  else if 9999 < year then "+" ++ padded 4 year.natAbs
  else padded 4 year.natAbs

def renderOffset (offset : Int) : String :=
  let minutes := (offset.natAbs + 30) / 60
  (if offset < 0 then "-" else "+") ++ padded 2 (minutes / 60) ++ padded 2 (minutes % 60)

def render (m : Moment) : String :=
  renderYear m.date.year ++ "-" ++ padded 2 m.date.month ++ "-" ++ padded 2 m.date.day ++ " " ++
    padded 2 m.hour ++ ":" ++ padded 2 m.minute ++ ":" ++ padded 2 m.second ++ " " ++
    renderOffset m.offset

end Moment

end PdfSchema
