import DeliveryLedger.Decimal.Digits
/-!
The outcome of a resubmission sweep, in numbers.
-/

namespace DeliveryLedger

structure Report where
  /-- Records whose handler was invoked. -/
  attempted : Int
  /-- Replays that ran and were completed. -/
  succeeded : Int
  /-- Replays whose handler or whose completion failed. -/
  failed : Int
  /-- Records that could not be replayed at all. -/
  skipped : Int
deriving DecidableEq, Repr, Inhabited

namespace Report

def empty : Report := ⟨0, 0, 0, 0⟩

/-- All records that were selected. -/
def selected (r : Report) : Int := r.attempted + r.skipped

def text (r : Report) : String :=
  "attempted=" ++ Decimal.intText r.attempted ++ " succeeded=" ++ Decimal.intText r.succeeded ++
    " failed=" ++ Decimal.intText r.failed ++ " skipped=" ++ Decimal.intText r.skipped

end Report

end DeliveryLedger
