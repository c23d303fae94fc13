/-!
The Gregorian calendar, extended to all years.  Days are counted from the first day of
year 1.
-/

namespace DeliveryLedger.Calendar

def isLeapYear (year : Nat) : Bool :=
  year % 4 == 0 && (year % 100 != 0 || year % 400 == 0)

def daysInMonth (year month : Nat) : Nat :=
  if month = 2 then if isLeapYear year then 29 else 28
  else if month = 4 ∨ month = 6 ∨ month = 9 ∨ month = 11 then 30
  else 31

/-- The days before the first day of a year. -/
def daysBeforeYear (year : Nat) : Nat :=
  let past := year - 1
  past * 365 + past / 4 - past / 100 + past / 400

/-- The days of a year before the first day of a month. -/
def daysBeforeMonth (year month : Nat) : Nat :=
  (List.range (month - 1)).foldl (fun days m => days + daysInMonth year (m + 1)) 0

/-- The number of days from the first day of year 1 to a date. -/
def dayNumber (year month day : Nat) : Nat :=
  daysBeforeYear year + daysBeforeMonth year month + (day - 1)

/-- The month and day of a day within a year, both counted from 1. -/
def monthOf (year : Nat) (dayOfYear : Nat) : Nat × Nat :=
  let before := (List.range 12).filter fun m => daysBeforeMonth year (m + 1) ≤ dayOfYear
  let month := before.length
  (month, dayOfYear - daysBeforeMonth year month + 1)

/-- Year, month and day of a day number. -/
def dateOf (n : Nat) : Nat × Nat × Nat :=
  let guess := n / 366 + 1
  let years := (List.range 30).filter fun k => daysBeforeYear (guess + k) ≤ n
  let year := guess + years.length - 1
  let (month, day) := monthOf year (n - daysBeforeYear year)
  (year, month, day)

end DeliveryLedger.Calendar
