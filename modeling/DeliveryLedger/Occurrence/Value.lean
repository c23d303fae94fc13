import DeliveryLedger.Json.Value
import DeliveryLedger.Json.Canonical
import DeliveryLedger.Decimal.Numeral
/-!
Values of the fields of an occurrence.  They are JSON values and decimal numerals; a numeral
is written to JSON as its text (`Value.toJson`).  Two values can be *equal* without being the
same: numbers are equal by value, whatever their kind, and objects regardless of the order of
their keys.
-/

namespace DeliveryLedger

inductive Value where
  | null
  | bool (b : Bool)
  | int (i : Int)
  | float (x : Binary64)
  | decimal (n : Decimal.Numeral)
  | text (s : String)
  | list (items : List Value)
  | record (members : List (String × Value))
deriving Repr, Inhabited, BEq

namespace Value

mutual

/-- The value as JSON. -/
def toJson : Value → Json
  | .null => .null
  | .bool b => .bool b
  | .int i => .int i
  | .float x => .float x
  | .decimal n => .str n.text
  | .text s => .str s
  | .list items => .arr (itemsToJson items)
  | .record members => .obj (membersToJson members)

def itemsToJson : List Value → List Json
  | [] => []
  | v :: vs => toJson v :: itemsToJson vs

def membersToJson : List (String × Value) → List (String × Json)
  | [] => []
  | (k, v) :: ms => (k, toJson v) :: membersToJson ms

end

mutual

/-- A JSON value as it stands. -/
def ofJson : Json → Value
  | .null => .null
  | .bool b => .bool b
  | .int i => .int i
  | .float x => .float x
  | .str s => .text s
  | .arr items => .list (itemsOfJson items)
  | .obj members => .record (membersOfJson members)

def itemsOfJson : List Json → List Value
  | [] => []
  | v :: vs => ofJson v :: itemsOfJson vs

def membersOfJson : List (String × Json) → List (String × Value)
  | [] => []
  | (k, v) :: ms => (k, ofJson v) :: membersOfJson ms

end

mutual

theorem toJson_ofJson : ∀ j : Json, toJson (ofJson j) = j
  | .null => rfl
  | .bool _ => rfl
  | .int _ => rfl
  | .float _ => rfl
  | .str _ => rfl
  | .arr items => by rw [ofJson, toJson, itemsToJson_itemsOfJson]
  | .obj members => by rw [ofJson, toJson, membersToJson_membersOfJson]

theorem itemsToJson_itemsOfJson : ∀ js : List Json, itemsToJson (itemsOfJson js) = js
  | [] => rfl
  | j :: js => by rw [itemsOfJson, itemsToJson, toJson_ofJson, itemsToJson_itemsOfJson]

theorem membersToJson_membersOfJson :
    ∀ ms : List (String × Json), membersToJson (membersOfJson ms) = ms
  | [] => rfl
  | (k, j) :: ms => by rw [membersOfJson, membersToJson, toJson_ofJson, membersToJson_membersOfJson]

end

/-- What kind of value it is, as messages call it. -/
def kindName : Value → String
  | .null => "NoneType"
  | .bool _ => "bool"
  | .int _ => "int"
  | .float _ => "float"
  | .decimal _ => "decimal.Decimal"
  | .text _ => "str"
  | .list _ => "list"
  | .record _ => "dict"

/-- The exact value of a finite number, as an integer over a positive natural number. -/
def ratio? : Value → Option (Int × Nat)
  | .bool b => some (if b then 1 else 0, 1)
  | .int i => some (i, 1)
  | .float x => if x.isFinite then some (x.signedNumerator, x.denominator) else none
  | .decimal n =>
    let size := Int.ofNat (n.coefficient * Nat.pow 10 n.exponent.toNat)
    some (if n.negative then -size else size, Nat.pow 10 (-n.exponent).toNat)
  | _ => none

/-- Equality of numbers by value; infinities are equal if their signs are. -/
def equalNumbers (a b : Value) : Bool :=
  match ratio? a, ratio? b with
  | some (n, d), some (m, e) => n * e == m * d
  | none, none =>
    match a, b with
    | .float x, .float y => x.sameValue y
    | _, _ => false
  | _, _ => false

mutual

/-- Equality of values. -/
def equal : Value → Value → Bool
  | .null, .null => true
  | .text s, .text t => s == t
  | .list xs, .list ys => equalItems xs ys
  | .record ms, .record ns => ms.length == ns.length && equalMembers ms ns
  | a, b => equalNumbers a b

def equalItems : List Value → List Value → Bool
  | [], [] => true
  | x :: xs, y :: ys => equal x y && equalItems xs ys
  | _, _ => false

/-- Every member on the left has an equal one on the right. -/
def equalMembers : List (String × Value) → List (String × Value) → Bool
  | [], _ => true
  | (k, v) :: ms, ns =>
    (match member? k ns with
      | some w => equal v w
      | none => false) && equalMembers ms ns

end

end Value

end DeliveryLedger
