import DeliveryLedger.Binary64
import DeliveryLedger.Decimal.Digits
import DeliveryLedger.Json.Value
/-!
Lengths of time in whole microseconds.

A number of seconds becomes a duration by rounding to the nearest microsecond, a half to the
even one; the part behind the point is scaled in floating-point arithmetic, the whole part
exactly.  A duration spans at most 999999999 days and some hours.
-/

namespace DeliveryLedger

/-- Why a number is no duration, or a sum of an instant and a duration no instant. -/
inductive TimeFault where
  /-- The days do not even fit a machine word. -/
  | daysBeyondWord
  /-- The days are beyond the limit. -/
  | daysBeyondLimit (days : Int)
  /-- The number is infinite. -/
  | infinite
  /-- The number is no number. -/
  | notANumber
  /-- The resulting instant is outside the years 1 to 9999. -/
  | instantOutOfRange
deriving DecidableEq, Repr

namespace TimeFault

def message : TimeFault → String
  | .daysBeyondWord => "Python int too large to convert to C int"
  | .daysBeyondLimit days =>
    "days=" ++ Decimal.intText days ++ "; must have magnitude <= 999999999"
  | .infinite => "cannot convert float infinity to integer"
  | .notANumber => "cannot convert float NaN to integer"
  | .instantOutOfRange => "date value out of range"

end TimeFault

/-- A length of time; negative ones reach into the past. -/
structure Duration where
  micros : Int
deriving DecidableEq, Repr, Inhabited

namespace Duration

def microsPerSecond : Int := 1000000

def microsPerDay : Int := 86400 * 1000000

/-- The whole days, rounded down. -/
def days (d : Duration) : Int := d.micros.fdiv microsPerDay

/-- A number of microseconds as a duration, if it is within the limits. -/
def ofMicros (micros : Int) : Except TimeFault Duration :=
  let days := micros.fdiv microsPerDay
  if days < -2147483648 ∨ 2147483647 < days then .error .daysBeyondWord
  else if days < -999999999 ∨ 999999999 < days then .error (.daysBeyondLimit days)
  else .ok ⟨micros⟩

/-- Microseconds under way to a duration: the whole ones, and the sum of the parts that are
still behind the point. -/
structure Partial where
  whole : Int
  rest : Binary64

/-- `amount` units of `unit` microseconds each. -/
def Partial.addUnits (p : Partial) (unit : Nat) (amount : Json) : Except TimeFault Partial :=
  match amount with
  | .int i => .ok { p with whole := p.whole + i * unit }
  | .float x =>
    if x.isNaN then .error .notANumber
    else if x.isInfinite then .error .infinite
    else
      let whole := p.whole + x.truncate * unit
      let behind := x.fractional
      if behind.magnitude = 0 then .ok { p with whole := whole }
      else
        let scaled := (Binary64.ofInt unit).mul behind
        .ok { whole := whole + scaled.truncate, rest := p.rest.add scaled.fractional }
  | _ => .ok p

/-- The sum rounded to whole microseconds, a half to the even total. -/
def Partial.total (p : Partial) : Int :=
  let num := p.whole * p.rest.denominator + p.rest.signedNumerator
  let rounded : Int := divideToEven num.natAbs p.rest.denominator
  if num < 0 then -rounded else rounded

/-- The duration of a sum of amounts, each with the microseconds of its unit. -/
def ofUnits (amounts : List (Nat × Json)) : Except TimeFault Duration := do
  let sum ← amounts.foldlM (fun (p : Partial) a => p.addUnits a.1 a.2) ⟨0, Binary64.zero⟩
  ofMicros sum.total

/-- The units with their microseconds, in the order in which their amounts are added up. -/
def units : List (String × Nat) :=
  [("microseconds", 1), ("milliseconds", 1000), ("seconds", 1000000), ("minutes", 60000000),
   ("hours", 3600000000), ("days", 86400000000), ("weeks", 604800000000)]

/-- The duration of amounts given by the names of their units. -/
def ofNamedUnits (amounts : List (String × Json)) : Except TimeFault Duration :=
  ofUnits (units.flatMap fun u => (amounts.filter (·.1 = u.1)).map fun a => (u.2, a.2))

/-- A number of seconds as a duration. -/
def ofSeconds (seconds : Json) : Except TimeFault Duration :=
  ofUnits [(1000000, seconds)]

def add (a b : Duration) : Except TimeFault Duration := ofMicros (a.micros + b.micros)

/-- Days, if there are any, then hours, minutes and seconds, and the microseconds with six
digits, if there are any. -/
def text (d : Duration) : String :=
  let days := d.days
  let rest := (d.micros - days * microsPerDay).toNat
  let seconds := rest / 1000000
  let micros := rest % 1000000
  let clock := Decimal.natText (seconds / 3600) ++ ":" ++
    Decimal.natTextPadded 2 (seconds / 60 % 60) ++ ":" ++ Decimal.natTextPadded 2 (seconds % 60)
  let dayText :=
    if days = 0 then ""
    else Decimal.intText days ++ (if days.natAbs = 1 then " day, " else " days, ")
  dayText ++ clock ++ (if micros = 0 then "" else "." ++ Decimal.natTextPadded 6 micros)

end Duration

end DeliveryLedger
