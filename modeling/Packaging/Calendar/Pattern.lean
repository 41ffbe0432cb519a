import Packaging.Calendar.Date

/-! Reading dates. A pattern lists the fields of a written date in order; numbers may follow
blanks, and a gap stands for any number of blanks, also for none. -/

namespace Packaging.Calendar

inductive Field where
  | year
  | month
  | day
  | monthName
  | shortMonthName
  | mark (c : Char)
  | gap

abbrev Pattern := List Field

def monthNames : List Text :=
  ["January", "February", "March", "April", "May", "June", "July", "August", "September",
    "October", "November", "December"].map String.toList

/-- At most `width` digits, after blanks. -/
def readNumber (width : Nat) (t : Text) : Option (Nat × Text) :=
  let t := Text.trimStart t
  let digits := (t.take width).takeWhile Char.isDigit
  if digits.isEmpty then none
  else some (Nat.ofDigitChars 10 digits 0, t.drop digits.length)

/-- Four digits at most, or any number of them after a sign. -/
def readYear (t : Text) : Option (Int × Text) :=
  let signed (sign : Int) (r : Text) : Option (Int × Text) :=
    let digits := r.takeWhile Char.isDigit
    if digits.isEmpty then none
    else some (sign * Nat.ofDigitChars 10 digits 0, r.drop digits.length)
  match Text.trimStart t with
  | '-' :: r => signed (-1) r
  | '+' :: r => signed 1 r
  | r => (readNumber 4 r).map fun (n, rest) => (n, rest)

/-- What follows `start` up to the case of letters. -/
def afterLetters? (start t : Text) : Option Text :=
  if Text.sameLetters start (t.take start.length) then some (t.drop start.length) else none

/-- A month by the first three letters of its name. -/
def readShortMonth (t : Text) : Option (Nat × Text) :=
  (monthNames.zipIdx 1).findSome? fun (name, n) => (afterLetters? (name.take 3) t).map (n, ·)

/-- A month by its name or the first three letters of it, whichever is longer. -/
def readMonth (t : Text) : Option (Nat × Text) :=
  (monthNames.zipIdx 1).findSome? fun (name, n) =>
    ((afterLetters? name t).or (afterLetters? (name.take 3) t)).map (n, ·)

/-- What a pattern has read so far. -/
structure Draft where
  year : Int := 0
  month : Nat := 0
  day : Nat := 0

def readField (d : Draft) (t : Text) : Field → Option (Draft × Text)
  | .year => (readYear t).map fun (n, r) => ({ d with year := n }, r)
  | .month => (readNumber 2 t).map fun (n, r) => ({ d with month := n }, r)
  | .day => (readNumber 2 t).map fun (n, r) => ({ d with day := n }, r)
  | .monthName => (readMonth t).map fun (n, r) => ({ d with month := n }, r)
  | .shortMonthName => (readShortMonth t).map fun (n, r) => ({ d with month := n }, r)
  | .mark c => (Text.after? [c] t).map (d, ·)
  | .gap => some (d, Text.trimStart t)

/-- The whole text has to be read. -/
def readPattern : Draft → Pattern → Text → Option Date
  | d, [], t => if t.isEmpty then Date.of? d.year d.month d.day else none
  | d, f :: fs, t => (readField d t f).bind fun (d, r) => readPattern d fs r

/-- The ways a date is written in a release history, the first that fits counts. -/
def patterns : List Pattern :=
  [[.year, .mark '-', .month, .mark '-', .day],
   [.year, .mark '/', .month, .mark '/', .day],
   [.day, .gap, .monthName, .gap, .year],
   [.day, .gap, .shortMonthName, .gap, .year],
   [.monthName, .gap, .day, .gap, .year],
   [.shortMonthName, .gap, .day, .gap, .year]]

/-- Commas count as blanks, and runs of blanks as one space. -/
def Date.ofText? (t : Text) : Option Date :=
  let t := t.map fun c => if c = ',' then ' ' else c
  let t := List.intercalate [' '] (Text.words t)
  patterns.findSome? (readPattern {} · t)

end Packaging.Calendar
