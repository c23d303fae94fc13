import DeliveryLedger.Time.Order
/-!
A clock that only moves when told to.
-/

namespace DeliveryLedger

/-- A manual clock, by its present reading. -/
structure Clock where
  now : Instant
deriving DecidableEq, Repr, Inhabited

namespace Clock

/-- Where a manual clock stands at first. -/
def epoch : Instant := Instant.utc 2024 1 1 0 0 0 0

/-- A clock at an instant, which has to be aware. -/
def start (instant : Instant) : Except Fault Clock :=
  if instant.isAware then .ok ⟨instant⟩ else .error .naiveClock

/-- The clock set to any instant. -/
def set (_ : Clock) (instant : Instant) : Clock := ⟨instant⟩

/-- The clock moved by the sum of two durations. -/
def advance (c : Clock) (delta seconds : Duration) : Except Fault Clock := do
  let total ← liftTime (delta.add seconds)
  let now ← liftTime (c.now.add total)
  .ok ⟨now⟩

/-- The clock moved by a number of seconds. -/
def advanceSeconds (c : Clock) (seconds : Json) : Except Fault Clock := do
  let d ← liftTime (Duration.ofSeconds seconds)
  c.advance ⟨0⟩ d

/-- The instant that lies `age` before the present. -/
def cutoff (c : Clock) (age : Duration) : Except Fault Instant := liftTime (c.now.sub age)

end Clock

end DeliveryLedger
