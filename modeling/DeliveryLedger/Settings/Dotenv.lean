import DeliveryLedger.Json.Value
import DeliveryLedger.Settings.Variables
import DeliveryLedger.Text.Blank
/-!
Variables from a file: one `name = value` a line, perhaps behind the word `export`.

A value stands in quotes, which may hold escapes and line breaks, or reaches to the end of the
line or to a comment.  A line that cannot be read is passed over.  Inside a value `$` and
a name in braces stand for another variable, with a fallback behind a colon and a hyphen.
-/

namespace DeliveryLedger.Settings.Dotenv

def isLineEnd (c : Char) : Bool := c == '\n' || c == '\r'

/-- A blank inside a line. -/
def isInnerBlank (c : Char) : Bool := Text.isBlank c && !isLineEnd c

def skipInner (cs : List Char) : List Char := cs.dropWhile isInnerBlank

/-- What follows the line, and the line break at its end. -/
def nextLine (cs : List Char) : List Char :=
  match cs.dropWhile (!isLineEnd ·) with
  | '\r' :: '\n' :: rest => rest
  | _ :: rest => rest
  | [] => []

/-- What follows, if nothing but a comment stands before the end of the line. -/
def endOfLine? (cs : List Char) : Option (List Char) :=
  match skipInner cs with
  | [] => some []
  | '#' :: _ => some (nextLine cs)
  | c :: _ => if isLineEnd c then some (nextLine cs) else none

/-- The text up to the closing quote, and what follows it.  A quote behind a backslash closes
only if no other quote does. -/
def quotedBody (mark : Char) : List Char → Option (List Char × List Char)
  | [] => none
  | '\\' :: c :: cs =>
    if c = mark then
      match quotedBody mark cs with
      | some (body, rest) => some ('\\' :: c :: body, rest)
      | none => some (['\\'], cs)
    else (quotedBody mark (c :: cs)).map fun p => ('\\' :: p.1, p.2)
  | c :: cs => if c = mark then some ([], cs) else (quotedBody mark cs).map fun p => (c :: p.1, p.2)

/-- The character of an escape inside double quotes. -/
def doubleEscape? (c : Char) : Option Char :=
  match c with
  | '\\' => some '\\'
  | '\'' => some '\''
  | '"' => some '"'
  | 'a' => some '\x07'
  | 'b' => some '\x08'
  | 'f' => some '\x0c'
  | 'n' => some '\n'
  | 'r' => some '\r'
  | 't' => some '\t'
  | 'v' => some '\x0b'
  | _ => none

/-- The character of an escape inside single quotes. -/
def singleEscape? (c : Char) : Option Char :=
  if c = '\\' ∨ c = '\'' then some c else none

/-- The text with its escapes replaced. -/
def unescape (escape? : Char → Option Char) : List Char → List Char
  | [] => []
  | '\\' :: c :: cs =>
    match escape? c with
    | some d => d :: unescape escape? cs
    | none => '\\' :: unescape escape? (c :: cs)
  | c :: cs => c :: unescape escape? cs

/-- A line without a comment: the comment begins with a hash behind a blank. -/
def dropComment : List Char → List Char
  | [] => []
  | c :: '#' :: cs => if Text.isBlank c then [] else c :: dropComment ('#' :: cs)
  | c :: cs => c :: dropComment cs

/-- The value behind the equals sign, and what follows it. -/
def value? (cs : List Char) : Option (List Char × List Char) :=
  match cs with
  | '\'' :: cs => (quotedBody '\'' cs).map fun p => (unescape singleEscape? p.1, p.2)
  | '"' :: cs => (quotedBody '"' cs).map fun p => (unescape doubleEscape? p.1, p.2)
  | cs => some (Text.trimEnd (dropComment (cs.takeWhile (!isLineEnd ·))),
      cs.dropWhile (!isLineEnd ·))

/-- The text without the word `export` and the blanks behind it. -/
def skipExport (cs : List Char) : List Char :=
  let word := "export".toList
  if word.isPrefixOf cs then
    let rest := cs.drop word.length
    if rest.head?.any isInnerBlank then skipInner rest else cs
  else cs

/-- A name, perhaps in single quotes, and what follows it. -/
def name? (cs : List Char) : Option (List Char × List Char) :=
  let isNameChar (c : Char) : Bool := !Text.isBlank c && c != '=' && c != '#'
  match cs with
  | '\'' :: cs =>
    match cs.takeWhile (· ≠ '\''), cs.dropWhile (· ≠ '\'') with
    | [], _ => none
    | name, '\'' :: rest => some (name, rest)
    | _, _ => none
  | cs =>
    match cs.takeWhile isNameChar with
    | [] => none
    | name => some (name, cs.dropWhile isNameChar)

/-- A variable at the front of the text, and what follows its line. -/
def assignment? (cs : List Char) : Option ((String × Option (List Char)) × List Char) := do
  let (name, cs) ← name? (skipExport cs)
  match skipInner cs with
  | '=' :: rest =>
    let (value, rest) ← value? (skipInner rest)
    let rest ← endOfLine? rest
    pure ((String.ofList name, some value), rest)
  | rest =>
    let rest ← endOfLine? rest
    pure ((String.ofList name, none), rest)

/-- The variables of a text, one for each line that can be read. -/
def assignments : Nat → List Char → List (String × Option (List Char))
  | 0, _ => []
  | fuel + 1, cs =>
    match Text.trimStart cs with
    | [] => []
    | cs =>
      match assignment? cs with
      | some (v, rest) => v :: assignments fuel rest
      | none => assignments fuel (nextLine cs)

/-- The name and the fallback behind `$` and an opening brace, and what follows the closing
one. -/
def reference? (cs : List Char) : Option ((List Char × List Char) × List Char) :=
  let isName (c : Char) : Bool := c != '\x7d' && c != ':'
  match cs.dropWhile isName with
  | '\x7d' :: rest => some ((cs.takeWhile isName, []), rest)
  | ':' :: '-' :: rest =>
    match rest.dropWhile (· ≠ '\x7d') with
    | _ :: after => some ((cs.takeWhile isName, rest.takeWhile (· ≠ '\x7d')), after)
    | [] => none
  | _ => none

/-- A value with the references in it replaced by the variables that are known. -/
def interpolate (known : Variables) : Nat → List Char → List Char
  | 0, cs => cs
  | _, [] => []
  | fuel + 1, c :: cs =>
    match c, cs with
    | '$', '\x7b' :: rest =>
      match reference? rest with
      | some ((name, fallback), after) =>
        let value := match member? (String.ofList name) known with
          | some value => (value.getD "").toList
          | none => fallback
        value ++ interpolate known fuel after
      | none => c :: interpolate known fuel cs
    | _, _ => c :: interpolate known fuel cs

/-- The variables of a file, with references to each other and to the surroundings
replaced. -/
def parse (surroundings : Variables) (text : String) : Variables :=
  let cs := text.toList
  (assignments (cs.length + 1) cs).foldl (fun found v =>
    let value := v.2.map fun cs =>
      let known := found.foldl (fun known w => insertMember w.1 w.2 known) surroundings
      String.ofList (interpolate known cs.length cs)
    insertMember v.1 value found) []

end DeliveryLedger.Settings.Dotenv
