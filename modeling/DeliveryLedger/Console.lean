import DeliveryLedger.Publication.Record
import DeliveryLedger.Publication.Report
import DeliveryLedger.Text.Blank
/-!
What the commands print: lines for the user, lines about errors, and tables of records.

Square brackets around a lower-case word are marks of style and are not shown, unless a
backslash stands before them.  A cell of a table cannot be shown at all if a mark in it closes
what no mark has opened.  Lines carry no blanks at their ends; empty lines at the end of the
output and blank lines among the errors are left out.
-/

namespace DeliveryLedger.Console

/-- What was printed so far. -/
structure Output where
  out : List String
  err : List String
  /-- The rows of the last table, with its head. -/
  table : Option (List (List String))
deriving Repr, Inhabited

def Output.empty : Output := ⟨[], [], none⟩

/-- A message with a mark, by its meaning. -/
inductive Message where
  | success (text : String)
  | error (text : String) (hint : Option String)
  | warning (text : String)
  | info (text : String)
deriving Repr

/-- A character that a mark of style may begin with. -/
def beginsStyle (c : Char) : Bool :=
  (97 ≤ c.toNat && c.toNat ≤ 122) || c == '#' || c == '/' || c == '@'

/-- A mark of style, without its brackets, and what follows it. -/
def style? (cs : List Char) : Option (List Char × List Char) :=
  match cs with
  | [] => none
  | c :: rest =>
    let inner := rest.takeWhile fun c => c ≠ ']' ∧ c ≠ '['
    match beginsStyle c, rest.drop inner.length with
    | true, ']' :: after => some (c :: inner, after)
    | _, _ => none

/-- A part of a text. -/
inductive Piece where
  | plain (cs : List Char)
  /-- A mark of style, without its brackets, and the number of characters before it. -/
  | mark (position : Nat) (inner : List Char)

/-- The part as it is shown. -/
def Piece.shown : Piece → List Char
  | .plain cs => cs
  | .mark _ _ => []

/-- The parts of a text.  `slashes` is the number of backslashes just before: two of them stand
for one, and a single one keeps a mark as text. -/
def pieces (cs : List Char) : List Piece :=
  go cs.length 0 0 cs
where
  go : Nat → Nat → Nat → List Char → List Piece
    | 0, _, slashes, cs => [.plain (List.replicate slashes '\\' ++ cs)]
    | _, _, slashes, [] => [.plain (List.replicate slashes '\\')]
    | fuel + 1, position, slashes, c :: cs =>
      if c = '\\' then go fuel (position + 1) (slashes + 1) cs
      else if c = '[' then
        match style? cs with
        | some (inner, rest) =>
          .plain (List.replicate (slashes / 2) '\\') ::
            (if slashes % 2 = 1 then .plain ('[' :: (inner ++ [']'])) else .mark position inner) ::
              go fuel (position + inner.length + 2) 0 rest
        | none =>
          .plain (List.replicate (slashes - 1) '\\' ++ [c]) :: go fuel (position + 1) 0 cs
      else .plain (List.replicate slashes '\\' ++ [c]) :: go fuel (position + 1) 0 cs

/-- The text without its marks of style. -/
def withoutStyles (cs : List Char) : List Char := (pieces cs).flatMap Piece.shown

/-- The name of a mark, which ends at a sign of equality; letter case does not count. -/
def markName (inner : List Char) : List Char :=
  (Text.trim (inner.takeWhile (· ≠ '='))).map Char.toLower

/-- The names that are open after one more mark, the latest first.  A closing mark without a name
closes the latest. -/
def openAfter? (opened : List (List Char)) (inner : List Char) : Option (List (List Char)) :=
  match inner with
  | '/' :: inner =>
    let name := if markName inner = [] then opened.head? else some (markName inner)
    (name.filter (opened.contains ·)).map opened.erase
  | _ => some (markName inner :: opened)

/-- The first mark that closes what is not open. -/
def unmatched? (opened : List (List Char)) : List Piece → Option (Nat × List Char)
  | [] => none
  | .plain _ :: parts => unmatched? opened parts
  | .mark position inner :: parts =>
    match openAfter? opened inner with
    | some opened => unmatched? opened parts
    | none => some (position, inner)

/-- A text as a cell of a table shows it. -/
def cell (text : String) : Except Fault String :=
  let parts := pieces text.toList
  match unmatched? [] parts with
  | some (position, inner) => .error (.unmatchedMark (String.ofList inner) position)
  | none => .ok (String.ofList (parts.flatMap Piece.shown))

/-- A character that rings, moves back or feeds; it is never printed. -/
def isControl (c : Char) : Bool := [7, 8, 11, 12, 13].contains c.toNat

/-- The line with tabs widened to blanks, up to the next of the columns 8, 16, …  -/
def widenTabs (column : Nat) : List Char → List Char
  | [] => []
  | '\t' :: cs =>
    let width := 8 - column % 8
    List.replicate width ' ' ++ widenTabs (column + width) cs
  | c :: cs => c :: widenTabs (column + 1) cs

/-- The lines of a printed text. -/
def printed (text : String) : List String :=
  let cs := (withoutStyles text.toList).filter fun c => !isControl c
  (Text.splitAt '\n' cs).map fun line => String.ofList (Text.trimEnd (widenTabs 0 line))

def Output.print (o : Output) (text : String) : Output := { o with out := o.out ++ printed text }

def Output.printError (o : Output) (text : String) : Output :=
  { o with err := o.err ++ printed text }

/-- A message printed; information is left out when the console is quiet. -/
def Output.say (o : Output) (quiet : Bool) : Message → Output
  | .success text => o.print ("✓ " ++ text)
  | .warning text => o.print ("⚠ " ++ text)
  | .info text => if quiet then o else o.print text
  | .error text hint =>
    let o := o.printError ("✗ " ++ text)
    match hint with
    | some hint => if hint = "" then o else o.printError ("  " ++ hint)
    | none => o

/-- The lines as they are finally seen. -/
def Output.finish (o : Output) : Output :=
  { o with
    out := (o.out.reverse.dropWhile (· = "")).reverse
    err := o.err.filter (· ≠ "") }

/-- The outcome of a sweep. -/
def Output.report (o : Output) (quiet : Bool) (r : Report) : Output :=
  if r.selected = 0 then o.say quiet (.info "Nothing to resubmit")
  else
    o.print ("Resubmitted " ++ Decimal.intText r.attempted ++ " publication" ++
      (if r.attempted = 1 then "" else "s") ++ ": " ++ Decimal.intText r.succeeded ++
      " succeeded, " ++ Decimal.intText r.failed ++ " failed, " ++
      Decimal.intText r.skipped ++ " skipped")

/-- The head of a table of records. -/
def tableHead : List String := ["Id", "Handler", "Occurrence", "Published", "Status"]

/-- The texts that a row about a record is made of. -/
def texts (published : String) (r : PublicationRecord) : List String :=
  [r.id.text, r.handlerId, r.payload.occurrenceType, published, r.statusText]

/-- The cells of a record. -/
def row (now : Instant) (r : PublicationRecord) : Except Fault (List String) := do
  let published ← r.publishedAt.relativeText now
  (texts published r).mapM cell

/-- A table of records, the oldest first. -/
def tableOf (now : Instant) (records : List PublicationRecord) :
    Except Fault (List (List String)) := do
  let records ← Instant.sortOldestFirst (·.publishedAt) records
  let rows ← records.mapM (row now)
  pure (tableHead :: rows)

/-- The width of each column of a table: that of its widest cell. -/
def columnWidths : List (List String) → List Nat
  | [] => []
  | row :: rows => widest (row.map String.length) (columnWidths rows)
where
  widest : List Nat → List Nat → List Nat
    | a :: as, b :: bs => max a b :: widest as bs
    | as, [] => as
    | [], bs => bs

/-- A row of cells, each filled up with blanks to the width of its column. -/
def rowLine (widths : List Nat) (cells : List String) : String :=
  let fill (width : Nat) (cell : String) : List Char :=
    cell.toList ++ List.replicate (width + 2 - cell.length) ' '
  String.ofList (Text.trimEnd (List.zipWith fill widths cells).flatten)

/-- The lines of a table, its columns two blanks apart. -/
def tableLines (rows : List (List String)) : List String := rows.map (rowLine (columnWidths rows))

end DeliveryLedger.Console
