import DeliveryLedger.Json.Parser
import DeliveryLedger.Text.Blank
import DeliveryLedger.Text.Digit
import DeliveryLedger.Text.Quoted
import DeliveryLedger.Text.Search
import DeliveryLedger.Text.Split
/-!
Identifiers of publication records: 128-bit numbers, written as 32 hexadecimal digits in five
groups.
-/

namespace DeliveryLedger

structure RecordId where
  value : Nat
deriving DecidableEq, Repr, Inhabited

namespace RecordId

/-- The identifier drawn as the `n`-th of a node. -/
def drawn (n : Nat) : RecordId := ⟨0x00000000000040008000000000000000 + n⟩

theorem drawn_injective {m n : Nat} (h : drawn m = drawn n) : m = n := by
  simp only [drawn, RecordId.mk.injEq] at h
  omega

/-- The five groups of digits, joined by hyphens. -/
def text (id : RecordId) : String :=
  let ds := Text.hexDigits 32 id.value
  String.ofList (ds.take 8 ++ '-' :: (ds.drop 8).take 4 ++ '-' :: (ds.drop 12).take 4 ++
    '-' :: (ds.drop 16).take 4 ++ '-' :: ds.drop 20)

/-- The number of a row of exactly 32 hexadecimal digits. -/
def ofHexDigits? (cs : List Char) : Option RecordId := do
  if cs.length ≠ 32 then none
  else
    let digits ← cs.mapM Json.hexValue?
    pure ⟨digits.foldl (fun n d => 16 * n + d) 0⟩

/-- The text behind the mark of a hexadecimal numeral, if there is one. -/
def behindMark (cs : List Char) : List Char :=
  match cs with
  | '0' :: 'x' :: '_' :: rest | '0' :: 'X' :: '_' :: rest => rest
  | '0' :: 'x' :: rest | '0' :: 'X' :: rest => rest
  | _ => cs

/-- The number of a hexadecimal numeral: blanks may stand around it, a plus sign and a mark
before it, and single underscores between its digits. -/
def hexNumeral? (cs : List Char) : Option Nat := do
  let cs := Text.plainDigits (Text.trim cs)
  let cs := if cs.head? = some '+' then cs.tail else cs
  let groups := Text.splitAt '_' (behindMark cs)
  if groups.any List.isEmpty then none
  else
    let digits ← groups.flatten.mapM Json.hexValue?
    pure (digits.foldl (fun n d => 16 * n + d) 0)

/-- The identifier of a word on the command line: `urn:`, `uuid:`, braces at either end and
hyphens do not count, and 32 characters of a hexadecimal numeral remain. -/
def parseLoose? (word : String) : Option RecordId :=
  let cs := Text.dropWord "uuid:".toList (Text.dropWord "urn:".toList word.toList)
  let isBrace (c : Char) : Bool := c == '\x7b' || c == '\x7d'
  let inner := (((cs.dropWhile isBrace).reverse.dropWhile isBrace).reverse).filter (· ≠ '-')
  if inner.length = 32 then (hexNumeral? inner).map RecordId.mk else none

/-- Groups of eight, four, four, four and twelve digits between hyphens. -/
def grouped? (cs : List Char) : Option RecordId :=
  if cs.length = 36 ∧ cs[8]? = some '-' ∧ cs[13]? = some '-' ∧ cs[18]? = some '-' ∧
      cs[23]? = some '-' then
    ofHexDigits? (cs.filter (· ≠ '-'))
  else none

/-- The identifier of a text in one of the four usual spellings: digits alone, grouped,
grouped in braces, grouped behind `urn:uuid:`. -/
def parse? (text : String) : Option RecordId :=
  let cs := text.toList
  let urn := "urn:uuid:".toList
  if cs.length = 32 then ofHexDigits? cs
  else if urn.isPrefixOf cs then grouped? (cs.drop urn.length)
  else if cs.head? = some '\x7b' ∧ cs.getLast? = some '\x7d' then
    grouped? ((cs.drop 1).dropLast)
  else grouped? cs

end RecordId

end DeliveryLedger
