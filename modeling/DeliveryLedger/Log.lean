/-!
Lines of a log: a level and a text.
-/

namespace DeliveryLedger

inductive Level where
  | debug
  | info
  | warning
  | error
  | critical
deriving DecidableEq, Repr

/-- The name of a level in a log. -/
def Level.name : Level → String
  | .debug => "DEBUG"
  | .info => "INFO"
  | .warning => "WARNING"
  | .error => "ERROR"
  | .critical => "CRITICAL"

structure LogLine where
  level : Level
  text : String
deriving DecidableEq, Repr

/-- A line as it stands in a log. -/
def LogLine.line (l : LogLine) : String := l.level.name ++ " " ++ l.text

end DeliveryLedger
