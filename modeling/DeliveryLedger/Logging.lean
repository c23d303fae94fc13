import DeliveryLedger.Fault
import DeliveryLedger.Log
import DeliveryLedger.Settings.Basic
import DeliveryLedger.Text.Split
import DeliveryLedger.Text.Word
/-!
Which messages a log shows, and how it writes them.

A message is shown if its level reaches the threshold of its logger, which is that of the
nearest logger above it that has one, and also the threshold of the log as a whole.  The
loggers of some libraries have a threshold of their own.
-/

namespace DeliveryLedger.Logging

/-- The levels in order. -/
def rank : Level → Nat
  | .debug => 10
  | .info => 20
  | .warning => 30
  | .error => 40
  | .critical => 50

/-- The lowest level that is shown; without one, every level is. -/
abbrev Threshold := Option Level

/-- The threshold of a name. -/
def thresholdOf (name : String) : Except Fault Threshold :=
  match name with
  | "NOTSET" => .ok none
  | "DEBUG" => .ok (some .debug)
  | "INFO" => .ok (some .info)
  | "WARN" | "WARNING" => .ok (some .warning)
  | "ERROR" => .ok (some .error)
  | "FATAL" | "CRITICAL" => .ok (some .critical)
  | name => .error (.unknownLevel name)

def thresholdName : Threshold → String
  | none => "NOTSET"
  | some level => level.name

/-- A message of the level passes the threshold. -/
def passes (level : Level) : Threshold → Bool
  | none => true
  | some lowest => rank lowest ≤ rank level

/-- The loggers of which only warnings and what is worse are shown. -/
def quietLoggers : List String :=
  ["asyncio", "aiosqlite", "sqlalchemy", "sqlalchemy.engine", "apscheduler", "alembic"]

/-- A logger is another one or stands below it. -/
def isBelow (logger above : List String) : Bool := above.isPrefixOf logger

/-- The threshold of a logger, where `root` is that of the log as a whole. -/
def thresholdFor (root : Threshold) (logger : String) : Threshold :=
  let parts := Text.splitDots logger
  if quietLoggers.any fun quiet => isBelow parts (Text.splitDots quiet) then some .warning
  else root

/-- A message to a logger. -/
structure Message where
  logger : String
  level : Level
  text : String
deriving DecidableEq, Repr

def isShown (root : Threshold) (m : Message) : Bool :=
  passes m.level (thresholdFor root m.logger) && passes m.level root

/-! ### Formats -/

/-- A part of a format: a character, or a field of a message with a least width and perhaps
a greatest one. -/
inductive Piece where
  | char (c : Char)
  | field (name : String) (leftAligned : Bool) (width : Nat) (limit : Option Nat)
deriving Repr

/-- The flags, width and limit behind the name of a field, and what follows them. -/
def fieldLayout? (name : String) (cs : List Char) : Option (Piece × List Char) :=
  let isFlag (c : Char) : Bool := ['#', '0', '+', ' ', '-'].contains c
  let flags := cs.takeWhile isFlag
  let cs := cs.dropWhile isFlag
  let width := Decimal.ofDigits (cs.takeWhile Decimal.isDigit)
  match cs.dropWhile Decimal.isDigit with
  | 's' :: rest => some (.field name (flags.contains '-') width none, rest)
  | '.' :: cs =>
    let limit := Decimal.ofDigits (cs.takeWhile Decimal.isDigit)
    match cs.dropWhile Decimal.isDigit with
    | 's' :: rest => some (.field name (flags.contains '-') width (some limit), rest)
    | _ => none
  | _ => none

/-- The field behind a percent sign and an opening bracket, and what follows it. -/
def field? (cs : List Char) : Option (Piece × List Char) :=
  match cs.takeWhile Text.isWord, cs.dropWhile Text.isWord with
  | [], _ => none
  | name, ')' :: rest => fieldLayout? (String.ofList name) rest
  | _, _ => none

/-- The pieces of a format; two percent signs stand for one. -/
def pieces : Nat → List Char → List Piece
  | 0, _ => []
  | _, [] => []
  | fuel + 1, '%' :: '%' :: cs => .char '%' :: pieces fuel cs
  | fuel + 1, '%' :: '(' :: cs =>
    match field? cs with
    | some (piece, rest) => piece :: pieces fuel rest
    | none => .char '%' :: pieces fuel ('(' :: cs)
  | fuel + 1, c :: cs => .char c :: pieces fuel cs

def Piece.isField : Piece → Bool
  | .field .. => true
  | .char _ => false

/-- The pieces of a format, which has to have a field; an empty one shows the message. -/
def format (text : String) : Except Fault (List Piece) :=
  let text := if text = "" then "%(message)s" else text
  let ps := pieces text.length text.toList
  if ps.any Piece.isField then .ok ps
  else .error (.foreign .value ("Invalid format '" ++ text ++ "' for '%' style"))

/-- The value of a field of a message. -/
def fieldText (m : Message) (name : String) : String :=
  match name with
  | "levelname" => m.level.name
  | "levelno" => Decimal.natText (rank m.level)
  | "name" => m.logger
  | "message" => m.text
  | _ => ""

def pieceChars (m : Message) : Piece → List Char
  | .char c => [c]
  | .field name leftAligned width limit =>
    let value := (fieldText m name).toList
    let value := (limit.map value.take).getD value
    let padding := List.replicate (width - value.length) ' '
    if leftAligned then value ++ padding else padding ++ value

/-- A message as it is written. -/
def write (ps : List Piece) (m : Message) : String :=
  String.ofList (ps.flatMap (pieceChars m))

/-! ### The log -/

/-- What a log has written: into a file, or else to the standard error stream. -/
structure Written where
  toFile : Bool
  lines : List String
  threshold : Threshold
deriving Repr

/-- The name that the root logger has. -/
def rootName (logger : String) : String := if logger = "" then "root" else logger

/-- The first message of a log, about its own settings. -/
def greeting (s : LoggingSettings) (file : Option String) : Message :=
  ⟨"root", .debug, "Logging configured: level=" ++ s.level ++ ", file=" ++ file.getD "None"⟩

/-- A log set up, and what it writes of a row of messages. -/
def run (s : LoggingSettings) (file : Option String) (messages : List Message) :
    Except Fault Written := do
  let root ← thresholdOf s.level
  let ps ← format s.format
  let named := messages.map fun m => { m with logger := rootName m.logger }
  let shown := (greeting s file :: named).filter (isShown root)
  .ok ⟨file.isSome, shown.flatMap fun m => Text.lines (write ps m ++ "\n"), root⟩

end DeliveryLedger.Logging
