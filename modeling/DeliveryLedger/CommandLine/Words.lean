import DeliveryLedger.Decimal.Reading
/-!
Words of a command line, matched with the parameters of a command.

An option is given by its name and the next word, or by its name, an equals sign and a value.
The remaining words go to the parameters that were not given by name, in order.  A word that
begins with a hyphen is an option unless it spells a number.
-/

namespace DeliveryLedger.CommandLine

/-- What is wrong with a command line. -/
inductive UsageFault where
  /-- A value is missing. -/
  | missingArgument
  | unknownCommand
  | unknownOption
  /-- There are more words than parameters. -/
  | unusedWords
  /-- A value is no number. -/
  | notANumber
  /-- An option that takes a single value was given twice. -/
  | repeatedOption
  /-- A word follows although a parameter before it was given by name. -/
  | misplacedWord
deriving DecidableEq, Repr

def UsageFault.message : UsageFault → String
  | .missingArgument => "a value is missing"
  | .unknownCommand => "unknown command"
  | .unknownOption => "unknown option"
  | .unusedWords => "too many words"
  | .notANumber => "a number is expected"
  | .repeatedOption => "an option is given twice"
  | .misplacedWord => "a word follows an option that takes its place"

structure Parameter where
  name : String
  /-- The parameter takes any number of values. -/
  many : Bool
deriving DecidableEq, Repr

/-- A word of the command line; behind a double hyphen no word is an option. -/
structure Word where
  text : String
  literal : Bool
deriving DecidableEq, Repr

/-- The unit of imaginary numbers, with a real factor or without. -/
def isImaginary (cs : List Char) : Bool :=
  match cs.getLast? with
  | some c =>
    (c == 'j' || c == 'J') &&
      (cs.length = 1 || cs.dropLast = ['+'] || cs.dropLast = ['-'] ||
        (Binary64.ofText? (String.ofList cs.dropLast)).isSome)
  | none => false

/-- The sum of a real and an imaginary number. -/
def isSum (cs : List Char) : Bool :=
  (List.range cs.length).any fun i =>
    (Binary64.ofText? (String.ofList (cs.take i))).isSome &&
      ((cs.drop i).head? == some '+' || (cs.drop i).head? == some '-') && isImaginary (cs.drop i)

/-- The word spells a number, a real or a complex one; the bare unit behind a hyphen is taken
for an option. -/
def isNumber (word : String) : Bool :=
  let cs := Text.plainDigits word.toList
  word.toLower ≠ "-j" &&
    ((Binary64.ofText? (String.ofList cs)).isSome || isImaginary cs || isSum cs)

def beginsWithHyphen (word : String) : Bool := word.toList.head? = some '-'

/-- The word is meant as an option. -/
def looksLikeOption (word : String) : Bool := beginsWithHyphen word && !isNumber word

/-- The name of an option and the value behind an equals sign. -/
def splitOption (word : String) : String × Option String :=
  let cs := word.toList
  let name := String.ofList (cs.takeWhile (· ≠ '='))
  match cs.dropWhile (· ≠ '=') with
  | [] => (name, none)
  | _ :: value => (name, some (String.ofList value))

/-- What was given: the values of options by the names of their parameters. -/
abbrev Given := List (String × String)

/-- One more value given by name. -/
def give (p : Parameter) (value : String) (given : Given) : Except UsageFault Given :=
  if !p.many && given.any (·.1 = p.name) then .error .repeatedOption
  else .ok (given ++ [(p.name, value)])

/-- The values of all options, and the words that remain. -/
def takeOptions (ps : List Parameter) (given : Given) (remaining : List Word) :
    List String → Except UsageFault (Given × List Word)
  | [] => .ok (given, remaining)
  | "--" :: rest => .ok (given, remaining ++ rest.map (⟨·, true⟩))
  | word :: rest =>
    if beginsWithHyphen word then
      let (name, value) := splitOption word
      match ps.find? fun p => "--" ++ p.name = name with
      | none => takeOptions ps given (remaining ++ [⟨word, false⟩]) rest
      | some p =>
        match value, rest with
        | some value, rest =>
          match give p value given with
          | .ok given => takeOptions ps given remaining rest
          | .error fault => .error fault
        | none, [] => .error .missingArgument
        | none, value :: rest =>
          if looksLikeOption value then .error .missingArgument
          else
            match give p value given with
            | .ok given => takeOptions ps given remaining rest
            | .error fault => .error fault
    else takeOptions ps given (remaining ++ [⟨word, false⟩]) rest

/-- A word that is neither the value of an option nor an option itself. -/
def Word.isOption (w : Word) : Bool := !w.literal && looksLikeOption w.text

/-- The remaining words given to the parameters that were not given by name.  `blocked` says
that an earlier parameter was. -/
def takeWords (blocked : Bool) (given : Given) :
    List Parameter → List Word → Except UsageFault (Given × List Word)
  | _, [] => .ok (given, [])
  | [], words => .ok (given, words)
  | p :: ps, w :: ws =>
    if given.any (·.1 = p.name) then takeWords true given ps (w :: ws)
    else if blocked then
      .error (if looksLikeOption w.text then .unknownOption else .misplacedWord)
    else if p.many then
      if (w :: ws).any Word.isOption then .error .unknownOption
      else .ok (given ++ (w :: ws).map fun w => (p.name, w.text), [])
    else if w.isOption then .error .unknownOption
    else takeWords blocked (given ++ [(p.name, w.text)]) ps ws

/-- The values of the parameters, and the words left over. -/
def assign (ps : List Parameter) (words : List String) : Except UsageFault (Given × List Word) := do
  let (given, remaining) ← takeOptions ps [] [] words
  takeWords false given ps remaining

/-- No words may be left over. -/
def checkLeftOver (words : List Word) : Except UsageFault Unit :=
  if words.any fun w => looksLikeOption w.text then .error .unknownOption
  else if words ≠ [] then .error .unusedWords
  else .ok ()

/-- All values of a parameter. -/
def values (given : Given) (name : String) : List String :=
  (given.filter (·.1 = name)).map (·.2)

/-- The value of a parameter that cannot be left out. -/
def required (given : Given) (name : String) : Except UsageFault String :=
  match values given name with
  | [] => .error .missingArgument
  | value :: _ => .ok value

/-- The number that a value spells, in the digits of any script. -/
def number (value : String) : Except UsageFault Binary64 :=
  match Binary64.ofText? (String.ofList (Text.plainDigits value.toList)) with
  | some x => .ok x
  | none => .error .notANumber

end DeliveryLedger.CommandLine
