import DeliveryLedger.Time.Duration
import DeliveryLedger.Time.Calendar
/-!
Instants: a wall clock reading, and its distance from universal time where it is known.

An instant without an offset is *naive*.  Two instants of one kind can be ordered and
subtracted, by their moments or by their wall clocks; of different kinds they are just
unequal.  Adding a duration moves the wall clock and keeps the offset.
-/

namespace DeliveryLedger

/-- A reading of a wall clock, in microseconds since the beginning of year 1, and the offset
of that clock from universal time, in seconds. -/
structure Instant where
  wall : Int
  offset : Option Int
deriving DecidableEq, Repr, Inhabited

namespace Instant

/-- The end of year 9999, the first reading that is no longer allowed. -/
def wallLimit : Int := 3652059 * Duration.microsPerDay

def isAware (t : Instant) : Bool := t.offset.isSome

/-- What orders instants of one kind: the moment, or the wall clock of a naive instant. -/
def key (t : Instant) : Int :=
  match t.offset with
  | some seconds => t.wall - seconds * Duration.microsPerSecond
  | none => t.wall

/-- The two instants are of one kind. -/
def comparable (a b : Instant) : Bool := a.isAware == b.isAware

/-- The two instants are of one kind and denote one moment. -/
def sameMoment (a b : Instant) : Bool := comparable a b && a.key == b.key

/-- The instant moved by a duration, if it stays within the years 1 to 9999. -/
def shift (t : Instant) (micros : Int) : Except TimeFault Instant :=
  let wall := t.wall + micros
  if 0 ≤ wall ∧ wall < wallLimit then .ok { t with wall := wall }
  else .error .instantOutOfRange

def add (t : Instant) (d : Duration) : Except TimeFault Instant := t.shift d.micros

def sub (t : Instant) (d : Duration) : Except TimeFault Instant := t.shift (-d.micros)

/-- A naive instant taken as universal time. -/
def assumeUtc (t : Instant) : Instant :=
  match t.offset with
  | some _ => t
  | none => { t with offset := some 0 }

/-- The wall clock reading alone, as universal time. -/
def wallAsUtc (t : Instant) : Instant := { t with offset := some 0 }

/-- An instant of universal time from its calendar fields. -/
def utc (year month day hour minute second micros : Nat) : Instant :=
  let seconds : Nat :=
    ((Calendar.dayNumber year month day * 24 + hour) * 60 + minute) * 60 + second
  ⟨(seconds : Int) * 1000000 + micros, some 0⟩

/-- The instant that lies some microseconds after the beginning of 1970. -/
def ofEpochMicros (micros : Int) : Instant :=
  { utc 1970 1 1 0 0 0 0 with wall := (utc 1970 1 1 0 0 0 0).wall + micros }

/-- The date and time of day of the wall clock. -/
structure Fields where
  year : Nat
  month : Nat
  day : Nat
  hour : Nat
  minute : Nat
  second : Nat
  micros : Nat

def fields (t : Instant) : Fields :=
  let wall := t.wall.toNat
  let seconds := wall / 1000000
  let (year, month, day) := Calendar.dateOf (seconds / 86400)
  { year, month, day, hour := seconds / 3600 % 24, minute := seconds / 60 % 60,
    second := seconds % 60, micros := wall % 1000000 }

/-- An offset as a sign, hours and minutes, and seconds if there are any. -/
def offsetText (seconds : Int) : String :=
  let n := seconds.natAbs
  (if seconds < 0 then "-" else "+") ++ Decimal.natTextPadded 2 (n / 3600) ++ ":" ++
    Decimal.natTextPadded 2 (n / 60 % 60) ++
    (if n % 60 = 0 then "" else ":" ++ Decimal.natTextPadded 2 (n % 60))

/-- Date and time to the microsecond, and the offset if there is one. -/
def text (t : Instant) : String :=
  let f := t.fields
  let two := Decimal.natTextPadded 2
  Decimal.natTextPadded 4 f.year ++ "-" ++ two f.month ++ "-" ++ two f.day ++ "T" ++
    two f.hour ++ ":" ++ two f.minute ++ ":" ++ two f.second ++ "." ++
    Decimal.natTextPadded 6 f.micros ++
    match t.offset with
    | some seconds => offsetText seconds
    | none => ""

/-- Date and time to the minute. -/
def minuteText (t : Instant) : String :=
  let f := t.fields
  let two := Decimal.natTextPadded 2
  Decimal.natTextPadded 4 f.year ++ "-" ++ two f.month ++ "-" ++ two f.day ++ " " ++
    two f.hour ++ ":" ++ two f.minute

/-- A fixed number of digits at the front, and the rest. -/
def takeDigits? (count : Nat) (cs : List Char) : Option (Nat × List Char) :=
  let digits := cs.take count
  if digits.length = count ∧ digits.all Decimal.isDigit then
    some (Decimal.ofDigits digits, cs.drop count)
  else none

/-- The fraction of a second in microseconds: six digits count, further ones are cut off. -/
def fraction? (cs : List Char) : Option (Nat × List Char) :=
  match cs with
  | '.' :: rest | ',' :: rest =>
    let digits := rest.takeWhile Decimal.isDigit
    if digits = [] then none
    else
      let six := (digits ++ List.replicate 6 '0').take 6
      some (Decimal.ofDigits six, rest.dropWhile Decimal.isDigit)
  | _ => some (0, cs)

/-- The seconds and their fraction, if a colon stands in front. -/
def seconds? (cs : List Char) : Option ((Nat × Nat) × List Char) :=
  match cs with
  | ':' :: rest => do
    let (second, rest) ← takeDigits? 2 rest
    let (micros, rest) ← fraction? rest
    pure ((second, micros), rest)
  | _ => some ((0, 0), cs)

/-- Hours, minutes and seconds. -/
def timeOfDay? (cs : List Char) : Option ((Nat × Nat × Nat × Nat) × List Char) := do
  let (hour, rest) ← takeDigits? 2 cs
  match rest with
  | ':' :: rest =>
    let (minute, rest) ← takeDigits? 2 rest
    let ((second, micros), rest) ← seconds? rest
    pure ((hour, minute, second, micros), rest)
  | _ => pure ((hour, 0, 0, 0), rest)

/-- The offset at the end of an instant; nothing at all makes it naive. -/
def offset? (cs : List Char) : Option (Option Int) :=
  match cs with
  | [] => some none
  | ['Z'] => some (some 0)
  | sign :: rest =>
    if sign = '+' ∨ sign = '-' then
      match timeOfDay? rest with
      | some ((hour, minute, second, _), []) =>
        let total : Int := ((hour * 60 + minute) * 60 + second : Nat)
        if hour < 24 ∧ minute < 60 ∧ second < 60 then
          some (some (if sign = '-' then -total else total))
        else none
      | _ => none
    else none

/-- The instant of a text of the form `YYYY-MM-DDTHH:MM:SS.ffffff+HH:MM`; the fraction, the
seconds, the time of day and the offset may be missing. -/
def parse? (text : String) : Option Instant := do
  let (year, rest) ← takeDigits? 4 text.toList
  let '-' :: rest := rest | none
  let (month, rest) ← takeDigits? 2 rest
  let '-' :: rest := rest | none
  let (day, rest) ← takeDigits? 2 rest
  if year < 1 ∨ month < 1 ∨ 12 < month ∨ day < 1 ∨ Calendar.daysInMonth year month < day then
    none
  else
    match rest with
    | [] => some { utc year month day 0 0 0 0 with offset := none }
    | _ :: rest => do
      let ((hour, minute, second, micros), rest) ← timeOfDay? rest
      let offset ← offset? rest
      if hour < 24 ∧ minute < 60 ∧ second < 60 then
        some { utc year month day hour minute second micros with offset := offset }
      else none

theorem offset_add {t u : Instant} {d : Duration} (h : t.add d = .ok u) :
    u.offset = t.offset := by
  simp only [add, shift] at h
  split at h <;> simp_all
  rw [← h]

end Instant

end DeliveryLedger
