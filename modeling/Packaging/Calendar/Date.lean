import Packaging.Text.Basic

/-! Days of the Gregorian calendar, extended to all years that 19 bits reach. -/

namespace Packaging.Calendar

def isLeap (year : Int) : Bool := year % 4 == 0 && (year % 100 != 0 || year % 400 == 0)

def daysIn (year : Int) (month : Nat) : Nat :=
  if month == 2 then (if isLeap year then 29 else 28)
  else if month == 4 || month == 6 || month == 9 || month == 11 then 30
  else 31

def isDate (year : Int) (month day : Nat) : Bool :=
  -262143 ≤ year && year ≤ 262142 && 1 ≤ month && month ≤ 12 && 1 ≤ day &&
    day ≤ daysIn year month

structure Date where
  year : Int
  month : Nat
  day : Nat
  valid : isDate year month day = true
deriving DecidableEq

namespace Date

def of? (year : Int) (month day : Nat) : Option Date :=
  if h : isDate year month day = true then some ⟨year, month, day, h⟩ else none

/-- Four digits; a year that needs more, or is before year 0, carries its sign. -/
def yearText (year : Int) : Text :=
  if year < 0 then '-' :: Text.padded 4 year.natAbs
  else if year ≤ 9999 then Text.padded 4 year.natAbs
  else '+' :: Text.padded 4 year.natAbs

def text (d : Date) : Text :=
  yearText d.year ++ '-' :: Text.padded 2 d.month ++ '-' :: Text.padded 2 d.day

/-- The year alone, as a plain number. -/
def plainYear (d : Date) : Text :=
  if d.year < 0 then '-' :: Text.ofNat d.year.natAbs else Text.ofNat d.year.natAbs

end Date

end Packaging.Calendar
